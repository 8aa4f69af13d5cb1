import CodeOutline.Token.Builder
import CodeOutline.Token.Columns

/-!
Trees in which every name has a place that is right for it. Additions of tokens with right places
keep that, and so does a change of all places that keeps them right.
-/

set_option autoImplicit false

namespace CodeOutline

open EntityToken (insertNew)

theorem forall_insertNew {α κ : Type} [BEq κ] {key : α → κ} {R : α → Prop} {items : List α}
    {item : α} (old : ∀ a ∈ items, R a) (new : R item) :
    ∀ a ∈ insertNew key items item, R a := by
  unfold insertNew
  split
  · exact old
  · exact List.forall_mem_append.2 ⟨old, List.forall_mem_singleton.2 new⟩

theorem forall_updateLast {α : Type} {R : α → Prop} {f : α → α} {as : List α}
    (old : ∀ a ∈ as, R a) (keeps : ∀ a, R a → R (f a)) : ∀ a ∈ updateLast f as, R a := by
  induction as with
  | nil => exact old
  | cons a as ih =>
    obtain ⟨first, later⟩ := List.forall_mem_cons.1 old
    cases as with
    | nil => exact List.forall_mem_singleton.2 (keeps a first)
    | cons b as => exact List.forall_mem_cons.2 ⟨first, ih later⟩

theorem forall_upsertEntry {α : Type} {R : α → Prop} {key : String} {f : Option α → α}
    {entries : List (String × α)} (old : ∀ entry ∈ entries, R entry.2)
    (keeps : ∀ o : Option α, (∀ a ∈ o, R a) → R (f o)) :
    ∀ entry ∈ OrderedMap.upsertEntry key f entries, R entry.2 := by
  induction entries with
  | nil => exact List.forall_mem_singleton.2 (keeps none nofun)
  | cons entry entries ih =>
    obtain ⟨first, later⟩ := List.forall_mem_cons.1 old
    rw [OrderedMap.upsertEntry]
    split
    · refine List.forall_mem_cons.2 ⟨keeps _ ?_, later⟩
      rintro _ ⟨⟩
      exact first
    · exact List.forall_mem_cons.2 ⟨first, ih later⟩

theorem forall_updateFirst? {α : Type} {R : α → Prop} {p : α → Bool} {f : α → α} {as bs : List α}
    (old : ∀ a ∈ as, R a) (keeps : ∀ a, R a → R (f a)) (found : updateFirst? p f as = some bs) :
    ∀ b ∈ bs, R b := by
  induction as generalizing bs with
  | nil => cases found
  | cons a as ih =>
    obtain ⟨first, later⟩ := List.forall_mem_cons.1 old
    rw [updateFirst?] at found
    split at found
    · obtain rfl := Option.some.inj found
      exact List.forall_mem_cons.2 ⟨keeps a first, later⟩
    · obtain ⟨cs, behind, rfl⟩ := Option.map_eq_some_iff.1 found
      exact List.forall_mem_cons.2 ⟨first, ih later behind⟩

variable {P Q : String → Span → Prop} {f : Span → Span}

/-- The places of an entity, of its properties and of its methods are right for their names. -/
structure EntityToken.Placed (P : String → Span → Prop) (e : EntityToken) : Prop where
  own : ∀ s ∈ e.span, P e.name s
  properties : ∀ p ∈ e.properties, ∀ s ∈ p.span, P p.name s
  methods : ∀ m ∈ e.methods, ∀ s ∈ m.span, P m.name s

namespace EntityToken.Placed

variable {e : EntityToken} (placed : e.Placed P)

include placed

theorem addProperty {p : PropertyToken} (right : ∀ s ∈ p.span, P p.name s) :
    (e.addProperty p).Placed P :=
  { placed with properties := forall_insertNew placed.properties right }

theorem addMethod {m : MethodToken} (right : ∀ s ∈ m.span, P m.name s) :
    (e.addMethod m).Placed P :=
  { placed with methods := forall_insertNew placed.methods right }

theorem imp (weaker : ∀ name s, P name s → Q name s) : e.Placed Q where
  own s member := weaker _ s (placed.own s member)
  properties p member s place := weaker _ s (placed.properties p member s place)
  methods m member s place := weaker _ s (placed.methods m member s place)

end EntityToken.Placed

/-- The places of imports, rules, variables, items, functions and classes, and of what the classes
hold, are right for their names. -/
structure TokenTree.Placed (P : String → Span → Prop) (t : TokenTree) : Prop where
  imports : ∀ i ∈ t.imports, ∀ s ∈ i.span, P i.name s
  rules : ∀ v ∈ t.rules, ∀ s ∈ v.span, P v.name s
  vars : ∀ v ∈ t.vars, ∀ s ∈ v.span, P v.name s
  items : ∀ v ∈ t.items, ∀ s ∈ v.span, P v.name s
  functions : ∀ m ∈ t.functions, ∀ s ∈ m.span, P m.name s
  classes : ∀ e ∈ t.classes, e.Placed P

namespace TokenTree.Placed

variable {t : TokenTree}

theorem empty : TokenTree.empty.Placed P := ⟨nofun, nofun, nofun, nofun, nofun, nofun⟩

variable (placed : t.Placed P)

include placed

theorem addImport {i : ImportToken} (right : ∀ s ∈ i.span, P i.name s) :
    (t.addImport i).Placed P :=
  { placed with imports := forall_insertNew placed.imports right }

theorem addRule {v : VarToken} (right : ∀ s ∈ v.span, P v.name s) : (t.addRule v).Placed P :=
  { placed with rules := forall_insertNew placed.rules right }

theorem addVariable {v : VarToken} (right : ∀ s ∈ v.span, P v.name s) :
    (t.addVariable v).Placed P :=
  { placed with vars := forall_insertNew placed.vars right }

theorem addItem {v : VarToken} (right : ∀ s ∈ v.span, P v.name s) : (t.addItem v).Placed P :=
  { placed with items := forall_insertNew placed.items right }

theorem addFunction {m : MethodToken} (right : ∀ s ∈ m.span, P m.name s) :
    (t.addFunction m).Placed P :=
  { placed with functions := forall_insertNew placed.functions right }

theorem addClass {e : EntityToken} (right : e.Placed P) : (t.addEntity .class e).Placed P :=
  { placed with classes := forall_insertNew placed.classes right }

theorem updateLastClass {g : EntityToken → EntityToken} (right : ∀ e, e.Placed P → (g e).Placed P) :
    (t.updateLastClass g).Placed P :=
  { placed with classes := forall_updateLast placed.classes right }

theorem foldl {α : Type} {g : TokenTree → α → TokenTree} {as : List α}
    (step : ∀ {t : TokenTree}, t.Placed P → ∀ a ∈ as, (g t a).Placed P) :
    (as.foldl g t).Placed P := by
  induction as generalizing t with
  | nil => exact placed
  | cons a as ih =>
    refine ih (step placed a List.mem_cons_self) (fun placed b member => ?_)
    exact step placed b (List.mem_cons_of_mem a member)

theorem imp (weaker : ∀ name s, P name s → Q name s) : t.Placed Q where
  imports i member s place := weaker _ s (placed.imports i member s place)
  rules v member s place := weaker _ s (placed.rules v member s place)
  vars v member s place := weaker _ s (placed.vars v member s place)
  items v member s place := weaker _ s (placed.items v member s place)
  functions m member s place := weaker _ s (placed.functions m member s place)
  classes e member := (placed.classes e member).imp weaker

end TokenTree.Placed

section MapSpan

variable (right : ∀ name s, P name s → Q name (f s))

include right

theorem right_map {name : String} {span : Option Span} (old : ∀ s ∈ span, P name s) :
    ∀ s ∈ span.map f, Q name s := by
  intro s member
  obtain ⟨before, among, rfl⟩ := Option.map_eq_some_iff.1 member
  exact right name before (old before among)

theorem EntityToken.Placed.mapSpan {e : EntityToken} (placed : e.Placed P) :
    (e.mapSpan f).Placed Q := by
  obtain ⟨⟩ := e
  exact {
    own := right_map right placed.own
    properties :=
      List.forall_mem_map.2 (fun p member => right_map right (placed.properties p member))
    methods := List.forall_mem_map.2 (fun m member => right_map right (placed.methods m member)) }

theorem placed_mapEntitySpans {es : List EntityToken} (placed : ∀ e ∈ es, e.Placed P) :
    ∀ e ∈ mapEntitySpans f es, e.Placed Q := by
  induction es with
  | nil => nofun
  | cons e es ih =>
    obtain ⟨first, later⟩ := List.forall_mem_cons.1 placed
    exact List.forall_mem_cons.2 ⟨first.mapSpan right, ih later⟩

theorem TokenTree.Placed.mapSpan {t : TokenTree} (placed : t.Placed P) :
    (t.mapSpan f).Placed Q where
  imports := List.forall_mem_map.2 (fun i member => right_map right (placed.imports i member))
  rules := List.forall_mem_map.2 (fun v member => right_map right (placed.rules v member))
  vars := List.forall_mem_map.2 (fun v member => right_map right (placed.vars v member))
  items := List.forall_mem_map.2 (fun v member => right_map right (placed.items v member))
  functions := List.forall_mem_map.2 (fun m member => right_map right (placed.functions m member))
  classes := placed_mapEntitySpans right placed.classes

end MapSpan

end CodeOutline
