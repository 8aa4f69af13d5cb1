import CodeOutline.Proofs.Token.Collections
import CodeOutline.Token.Columns

/-!
No addition to a tree, and no change of its places, makes a name stand twice in a collection. A
change of all entities that leaves alone what a builder looks at may come before the building or
behind it.
-/

set_option autoImplicit false

namespace CodeOutline

open EntityToken (insertNew)

section OneItem

variable {α κ : Type} {key : α → κ} {f : α → α} (same : ∀ a, key (f a) = key a)

include same

theorem map_updateLast (as : List α) : (updateLast f as).map key = as.map key := by
  induction as with
  | nil => rfl
  | cons a as ih =>
    cases as with
    | nil => rw [updateLast, List.map_singleton, List.map_singleton, same]
    | cons b as =>
      rw [updateLast, List.map_cons, List.map_cons, ih]
      exact List.cons_ne_nil b as

theorem map_updateFirst? {p : α → Bool} {as bs : List α} (found : updateFirst? p f as = some bs) :
    bs.map key = as.map key := by
  induction as generalizing bs with
  | nil => cases found
  | cons a as ih =>
    rw [updateFirst?] at found
    split at found
    · obtain rfl := Option.some.inj found
      rw [List.map_cons, List.map_cons, same]
    · obtain ⟨cs, later, rfl⟩ := Option.map_eq_some_iff.1 found
      rw [List.map_cons, List.map_cons, ih later]

end OneItem

theorem nodup_map_insertNew {α κ : Type} [DecidableEq κ] {key : α → κ} {items : List α}
    (distinct : (items.map key).Nodup) (item : α) : ((insertNew key items item).map key).Nodup := by
  by_cases old : key item ∈ items.map key
  · rwa [insertNew_of_mem old]
  · rw [insertNew_of_not_mem old, List.map_append, List.map_singleton]
    refine List.nodup_append.2 ⟨distinct, List.nodup_singleton _, ?_⟩
    rintro k member k' only rfl
    exact old (List.mem_singleton.1 only ▸ member)

private theorem map_mapEntitySpans (f : Span → Span) (es : List EntityToken) :
    (mapEntitySpans f es).map (·.name) = es.map (·.name) := by
  induction es with
  | nil => rfl
  | cons e es ih =>
    obtain ⟨⟩ := e
    rw [mapEntitySpans, List.map_cons, ih]
    rfl

theorem TokenTree.names_mapSpan (t : TokenTree) (f : Span → Span) (kind : EntityKind) :
    ((t.mapSpan f).entitiesOf kind).map (·.name) = (t.entitiesOf kind).map (·.name) := by
  cases kind with
  | interface => exact map_mapEntitySpans f t.interfaces
  | trait => exact map_mapEntitySpans f t.traits
  | «class» => exact map_mapEntitySpans f t.classes

theorem TokenTree.names_updateOpen (t : TokenTree) (name separator : String)
    {f : EntityToken → EntityToken} (named : ∀ e, (f e).name = e.name) (kind : EntityKind) :
    ((t.updateOpen name separator f).entitiesOf kind).map (·.name) =
      (t.entitiesOf kind).map (·.name) := by
  unfold updateOpen
  split
  · next changed found =>
    cases kind with
    | interface | trait => rfl
    | «class» => exact map_updateFirst? named found
  · split
    · next changed found =>
      cases kind with
      | interface => exact map_updateFirst? named found
      | trait | «class» => rfl
    · rfl

namespace TokenTree.HasDistinctNames

variable {t : TokenTree}

theorem empty : TokenTree.empty.HasDistinctNames := by
  refine ⟨.nil, fun kind => ?_, .nil, .nil, .nil, .nil⟩
  cases kind <;> exact .nil

variable (distinct : t.HasDistinctNames)

include distinct

theorem setStrict (b : Bool) : (t.setStrict b).HasDistinctNames :=
  { distinct with entities := distinct.entities }

theorem setSpace (ns : String) : (t.setSpace ns).HasDistinctNames := by
  obtain ⟨space, changed⟩ := t.setSpace_frame ns
  rw [changed]
  exact { distinct with entities := distinct.entities }

theorem addImport (i : ImportToken) : (t.addImport i).HasDistinctNames :=
  { distinct with
    imports := nodup_map_insertNew distinct.imports i, entities := distinct.entities }

theorem addFunction (m : MethodToken) : (t.addFunction m).HasDistinctNames :=
  { distinct with
    functions := nodup_map_insertNew distinct.functions m, entities := distinct.entities }

theorem addVariable (v : VarToken) : (t.addVariable v).HasDistinctNames :=
  { distinct with
    vars := nodup_map_insertNew distinct.vars v, entities := distinct.entities }

theorem addRule (v : VarToken) : (t.addRule v).HasDistinctNames :=
  { distinct with
    rules := nodup_map_insertNew distinct.rules v, entities := distinct.entities }

theorem addItem (v : VarToken) : (t.addItem v).HasDistinctNames :=
  { distinct with
    items := nodup_map_insertNew distinct.items v, entities := distinct.entities }

theorem addDeclarations (selector : String) (ds : List VarToken) :
    (t.addDeclarations selector ds).HasDistinctNames :=
  { distinct with entities := distinct.entities }

theorem addMediaDeclarations (condition selector : String) (ds : List VarToken) :
    (t.addMediaDeclarations condition selector ds).HasDistinctNames :=
  { distinct with entities := distinct.entities }

theorem setData (root : DataToken) : (t.setData root).HasDistinctNames :=
  { distinct with entities := distinct.entities }

theorem addEntity (kind : EntityKind) (e : EntityToken) :
    (t.addEntity kind e).HasDistinctNames := by
  have entities (k : EntityKind) : (((t.addEntity kind e).entitiesOf k).map (·.name)).Nodup := by
    have added := nodup_map_insertNew (distinct.entities kind) e
    have kept := distinct.entities k
    cases kind <;> cases k <;> assumption
  cases kind <;> exact { distinct with entities }

theorem updateLastClass {f : EntityToken → EntityToken} (named : ∀ e, (f e).name = e.name) :
    (t.updateLastClass f).HasDistinctNames := by
  refine { distinct with entities := fun kind => ?_ }
  have classes := distinct.entities .class
  cases kind with
  | interface => exact distinct.entities .interface
  | trait => exact distinct.entities .trait
  | «class» => exact (map_updateLast named t.classes).symm ▸ classes

theorem updateOpen (name separator : String) {f : EntityToken → EntityToken}
    (named : ∀ e, (f e).name = e.name) : (t.updateOpen name separator f).HasDistinctNames := by
  have entities (kind : EntityKind) :
      (((t.updateOpen name separator f).entitiesOf kind).map (·.name)).Nodup := by
    rw [t.names_updateOpen name separator named kind]
    exact distinct.entities kind
  obtain ⟨classes, interfaces, changed⟩ := t.updateOpen_frame name separator f
  rw [changed] at entities ⊢
  exact { distinct with entities }

theorem mapSpan (f : Span → Span) : (t.mapSpan f).HasDistinctNames where
  imports := by simpa [TokenTree.mapSpan, Function.comp_def, ImportToken.mapSpan] using distinct.imports
  entities kind := by
    rw [names_mapSpan]
    exact distinct.entities kind
  functions := by
    simpa [TokenTree.mapSpan, Function.comp_def, MethodToken.mapSpan] using distinct.functions
  vars := by simpa [TokenTree.mapSpan, Function.comp_def, VarToken.mapSpan] using distinct.vars
  rules := by simpa [TokenTree.mapSpan, Function.comp_def, VarToken.mapSpan] using distinct.rules
  items := by simpa [TokenTree.mapSpan, Function.comp_def, VarToken.mapSpan] using distinct.items

theorem foldl {α : Type} {f : TokenTree → α → TokenTree}
    (step : ∀ {t : TokenTree}, t.HasDistinctNames → ∀ a, (f t a).HasDistinctNames)
    (as : List α) : (as.foldl f t).HasDistinctNames := by
  induction as generalizing t with
  | nil => exact distinct
  | cons a as ih => exact ih (step distinct a)

end TokenTree.HasDistinctNames

/-! ## Changes of all entities -/

section Renaming

/-- Items may be turned into others before or after one of them is added, when the keys tell the
same items apart. -/
theorem insertNew_map {α β κ μ : Type} [BEq κ] [BEq μ] (key : α → κ) (key' : β → μ) (f : α → β)
    {as : List α} {a : α} (same : ∀ b ∈ as, (key' (f b) == key' (f a)) = (key b == key a)) :
    insertNew key' (as.map f) (f a) = (insertNew key as a).map f := by
  have known : (as.map f).any (fun old => key' old == key' (f a)) =
      as.any (fun old => key old == key a) := by
    rw [Bool.eq_iff_iff, List.any_map, List.any_eq_true, List.any_eq_true]
    refine exists_congr (fun b => and_congr_right (fun member => ?_))
    rw [Function.comp_apply, same b member]
  unfold insertNew
  rw [known]
  split
  · rfl
  · rw [List.map_append, List.map_singleton]

theorem updateFirst?_map {α β : Type} {p : α → Bool} {q : β → Bool} {f : α → α} {g : β → β}
    {h : α → β} {as : List α} (same : ∀ a ∈ as, q (h a) = p a) (move : ∀ a, g (h a) = h (f a)) :
    updateFirst? q g (as.map h) = (updateFirst? p f as).map (List.map h) := by
  induction as with
  | nil => rfl
  | cons a as ih =>
    rw [List.forall_mem_cons] at same
    rw [List.map_cons, updateFirst?, updateFirst?, same.1, ih same.2, move]
    cases p a with
    | true => rfl
    | false =>
      cases updateFirst? p f as with
      | none => rfl
      | some bs => rfl

namespace TokenTree

/-- All entities of a tree changed, and nothing else. -/
def mapEntities (h : EntityToken → EntityToken) (t : TokenTree) : TokenTree :=
  { t with
    interfaces := t.interfaces.map h, traits := t.traits.map h, classes := t.classes.map h }

variable {h f : EntityToken → EntityToken} {t : TokenTree}

theorem mem_addEntity {kind k : EntityKind} {e e' : EntityToken}
    (member : e' ∈ (t.addEntity kind e).entitiesOf k) :
    e' ∈ t.entitiesOf k ∨ k = kind ∧ e' = e := by
  rw [entitiesOf_addEntity] at member
  by_cases mine : kind = k
  · rw [if_pos mine, insertNew] at member
    split at member
    · exact .inl member
    · rcases List.mem_append.1 member with old | new
      · exact .inl old
      · exact .inr ⟨mine.symm, List.mem_singleton.1 new⟩
  · rw [if_neg mine] at member
    exact .inl member

theorem mapEntities_setSpace (ns : String) :
    (t.mapEntities h).setSpace ns = (t.setSpace ns).mapEntities h := by
  unfold setSpace
  split <;> rfl

theorem mapEntities_addEntity {kind : EntityKind} {e : EntityToken}
    (same : ∀ old ∈ t.entitiesOf kind, (h old).name = (h e).name ↔ old.name = e.name) :
    (t.mapEntities h).addEntity kind (h e) = (t.addEntity kind e).mapEntities h := by
  have added : insertNew (·.name) ((t.entitiesOf kind).map h) (h e) =
      (insertNew (·.name) (t.entitiesOf kind) e).map h := by
    apply insertNew_map
    intro old member
    rw [Bool.eq_iff_iff, beq_iff_eq, beq_iff_eq]
    exact same old member
  cases kind <;> simp only [addEntity, mapEntities, entitiesOf] at added ⊢ <;> rw [added]

theorem mapEntities_updateOpen {name separator : String}
    (same : ∀ kind, ∀ e ∈ t.entitiesOf kind,
      answersTo name separator (h e) = answersTo name separator e)
    (move : ∀ e, f (h e) = h (f e)) :
    (t.mapEntities h).updateOpen name separator f =
      (t.updateOpen name separator f).mapEntities h := by
  have classes := updateFirst?_map (same .class) move
  have interfaces := updateFirst?_map (same .interface) move
  simp only [entitiesOf] at classes interfaces
  unfold updateOpen
  simp only [mapEntities, classes, interfaces]
  cases updateFirst? (answersTo name separator) f t.classes with
  | some cs => rfl
  | none =>
    cases updateFirst? (answersTo name separator) f t.interfaces with
    | some is => rfl
    | none => rfl

end TokenTree

end Renaming

end CodeOutline
