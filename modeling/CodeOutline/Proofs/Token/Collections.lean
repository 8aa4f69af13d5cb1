import CodeOutline.Proofs.Token.Firsts
import CodeOutline.Token.Builder
import Mathlib.Data.List.Induction

/-!
What additions in any order leave in the collections of a tree: of each name the first token,
in order of first insertion. An entity stays where it was first inserted and gathers the
members that later additions bring to it, again the first of each name.
-/

set_option autoImplicit false

namespace CodeOutline

open EntityToken (insertNew)

/-! ## Changing one item -/

section OneItem

variable {α κ : Type} [DecidableEq κ] {key : α → κ}

private theorem map_update_of_absent {k : κ} {as : List α} (f : α → α)
    (absent : k ∉ as.map key) : as.map (fun a => if k = key a then f a else a) = as := by
  have same : ∀ a ∈ as, (if k = key a then f a else a) = a := by
    intro a member
    have other : k ≠ key a := by
      intro equal
      exact absent (List.mem_map.2 ⟨a, member, equal.symm⟩)
    exact if_neg other
  rw [List.map_congr_left same, List.map_id']

theorem updateLast_eq_map {as : List α} (f : α → α) (distinct : (as.map key).Nodup) :
    updateLast f as =
      as.map (fun a => if as.getLast?.map key = some (key a) then f a else a) := by
  induction as with
  | nil => rfl
  | cons a as ih =>
    cases as with
    | nil => simp [updateLast]
    | cons b as =>
      have distinct' := (List.nodup_cons.1 distinct).2
      have absent : ((b :: as).getLast?).map key ≠ some (key a) := by
        intro equal
        obtain ⟨last, found, same⟩ := Option.map_eq_some_iff.1 equal
        have member : key a ∈ (b :: as).map key :=
          List.mem_map.2 ⟨last, List.mem_of_getLast? found, same⟩
        exact (List.nodup_cons.1 distinct).1 member
      rw [List.getLast?_cons_cons, List.map_cons (a := a), if_neg absent, updateLast, ih distinct']
      exact fun none => nomatch none

theorem updateFirst?_eq_map {p : α → Bool} {as : List α} (f : α → α)
    (distinct : (as.map key).Nodup) :
    updateFirst? p f as =
      (as.find? p).map (fun found => as.map (fun a => if key found = key a then f a else a)) := by
  induction as with
  | nil => rfl
  | cons a as ih =>
    obtain ⟨absent, distinct'⟩ := List.nodup_cons.1 distinct
    by_cases here : p a = true
    · rw [updateFirst?, if_pos here, List.find?_cons_of_pos here, Option.map_some, List.map_cons,
        if_pos rfl, map_update_of_absent f absent]
    · rw [updateFirst?, if_neg here, List.find?_cons_of_neg here, ih distinct', Option.map_map]
      refine Option.map_congr (fun found member => ?_)
      have later : key found ≠ key a := by
        intro same
        exact absent (List.mem_map.2 ⟨found, List.mem_of_find?_eq_some member, same⟩)
      rw [Function.comp_apply, List.map_cons, if_neg later]

end OneItem

namespace EntityToken

/-- No member stands twice; a getter and a setter of one name are two members. -/
structure HasDistinctMembers (e : EntityToken) : Prop where
  constants : (e.constants.map (·.name)).Nodup
  properties : (e.properties.map (·.name)).Nodup
  accessors : (e.accessors.map (fun a => (a.name, a.direction))).Nodup
  methods : (e.methods.map (·.name)).Nodup
  traits : (e.traits.map (·.name)).Nodup

/-- No member stands twice, in the entity and in the traits that it uses, at any depth. -/
inductive IsDistinct : EntityToken → Prop
  | mk {e : EntityToken} (own : e.HasDistinctMembers) (used : ∀ u ∈ e.traits, IsDistinct u) :
    IsDistinct e

/-- The entity with its own members and behind them those of others, the first of each name. -/
def gathered (e : EntityToken) (others : List EntityToken) : EntityToken :=
  { e with
    constants := withFirsts (·.name) e.constants (others.flatMap (·.constants))
    properties := withFirsts (·.name) e.properties (others.flatMap (·.properties))
    accessors := withFirsts (fun a => (a.name, a.direction)) e.accessors
      (others.flatMap (·.accessors))
    methods := withFirsts (·.name) e.methods (others.flatMap (·.methods))
    traits := withFirsts (·.name) e.traits (others.flatMap (·.traits)) }

theorem gathered_name (e : EntityToken) (others : List EntityToken) :
    (e.gathered others).name = e.name := rfl

theorem gathered_nil (e : EntityToken) : e.gathered [] = e := by
  obtain ⟨name, span, vis, constants, properties, accessors, methods, traits, _, _⟩ := e
  simp only [gathered, List.flatMap_nil, withFirsts_nil]

theorem addMembers_eq (e other : EntityToken) :
    e.addMembers other =
      { e with
        constants := other.constants.foldl (insertNew (·.name)) e.constants
        properties := other.properties.foldl (insertNew (·.name)) e.properties
        accessors := other.accessors.foldl (insertNew (fun a => (a.name, a.direction))) e.accessors
        methods := other.methods.foldl (insertNew (·.name)) e.methods
        traits := other.traits.foldl (insertNew (·.name)) e.traits } := by
  have constants (e : EntityToken) (cs : List VarToken) : cs.foldl addConstant e =
      { e with constants := cs.foldl (insertNew (·.name)) e.constants } := by
    obtain ⟨_, _, _, _, _, _, _, _, _, _⟩ := e
    exact List.foldl_hom (fun cs => EntityToken.mk _ _ _ cs _ _ _ _ _ _)
      (fun _ _ => rfl)
  have properties (e : EntityToken) (ps : List PropertyToken) : ps.foldl addProperty e =
      { e with properties := ps.foldl (insertNew (·.name)) e.properties } := by
    obtain ⟨_, _, _, _, _, _, _, _, _, _⟩ := e
    exact List.foldl_hom (fun ps => EntityToken.mk _ _ _ _ ps _ _ _ _ _)
      (fun _ _ => rfl)
  have accessors (e : EntityToken) (as : List AccessorToken) : as.foldl addAccessor e =
      { e with accessors := as.foldl (insertNew (fun a => (a.name, a.direction))) e.accessors } := by
    obtain ⟨_, _, _, _, _, _, _, _, _, _⟩ := e
    exact List.foldl_hom (fun as => EntityToken.mk _ _ _ _ _ as _ _ _ _)
      (fun _ _ => rfl)
  have methods (e : EntityToken) (ms : List MethodToken) : ms.foldl addMethod e =
      { e with methods := ms.foldl (insertNew (·.name)) e.methods } := by
    obtain ⟨_, _, _, _, _, _, _, _, _, _⟩ := e
    exact List.foldl_hom (fun ms => EntityToken.mk _ _ _ _ _ _ ms _ _ _)
      (fun _ _ => rfl)
  have traits (e : EntityToken) (us : List EntityToken) : us.foldl addTrait e =
      { e with traits := us.foldl (insertNew (·.name)) e.traits } := by
    obtain ⟨_, _, _, _, _, _, _, _, _, _⟩ := e
    exact List.foldl_hom (fun us => EntityToken.mk _ _ _ _ _ _ _ us _ _)
      (fun _ _ => rfl)
  rw [addMembers, constants, properties, accessors, methods, traits]

theorem addMembers_gathered (e other : EntityToken) (others : List EntityToken) :
    (e.gathered others).addMembers other = e.gathered (others ++ [other]) := by
  rw [addMembers_eq]
  simp only [gathered, foldl_insertNew, List.flatMap_append, List.flatMap_cons, List.flatMap_nil,
    List.append_nil]

theorem HasDistinctMembers.gathered {e : EntityToken} (distinct : e.HasDistinctMembers)
    (others : List EntityToken) : (e.gathered others).HasDistinctMembers where
  constants := nodup_map_withFirsts distinct.constants _
  properties := nodup_map_withFirsts distinct.properties _
  accessors := nodup_map_withFirsts distinct.accessors _
  methods := nodup_map_withFirsts distinct.methods _
  traits := nodup_map_withFirsts distinct.traits _

theorem IsDistinct.gathered {e : EntityToken} (distinct : e.IsDistinct)
    {others : List EntityToken} (used : ∀ o ∈ others, ∀ u ∈ o.traits, u.IsDistinct) :
    (e.gathered others).IsDistinct := by
  obtain ⟨own, within⟩ := distinct
  refine ⟨own.gathered others, ?_⟩
  intro u member
  rcases mem_of_mem_withFirsts member with old | new
  · exact within u old
  · obtain ⟨o, inside, held⟩ := List.mem_flatMap.1 new
    exact used o inside u held

end EntityToken

namespace BuildStep

/-! ## What a step brings -/

def import? : BuildStep → Option ImportToken
  | .importOf i => some i
  | _ => none

def function? : BuildStep → Option MethodToken
  | .function m => some m
  | _ => none

def var? : BuildStep → Option VarToken
  | .var v => some v
  | _ => none

def rule? : BuildStep → Option VarToken
  | .rule v => some v
  | _ => none

def item? : BuildStep → Option VarToken
  | .item v => some v
  | _ => none

/-- Declarations for a selector at top level. -/
def declarations? : BuildStep → Option (String × List VarToken)
  | .declarations selector ds => some (selector, ds)
  | _ => none

/-- Declarations for a selector inside the media blocks of a condition. -/
def media? : BuildStep → Option (String × String × List VarToken)
  | .media condition selector ds => some (condition, selector, ds)
  | _ => none

def entity? (kind : EntityKind) : BuildStep → Option EntityToken
  | .entity k e => if k = kind then some e else none
  | _ => none

/-- The members that a step adds to an entity that is there already. -/
def members? : BuildStep → Option EntityToken
  | .lastClass members | .openEntity _ _ members => some members
  | _ => none

/-- The entities that a step brings, as entities of the tree or as traits that one uses. -/
def passed : BuildStep → List EntityToken
  | .entity _ e => [e]
  | .lastClass members | .openEntity _ _ members => members.traits
  | _ => []

/-! ## Where members go -/

/-- The entity that a step adds members to, by kind and name, among classes and interfaces of
these names: the last class, or the first class and else the first interface that answers to
the name asked for. -/
def target? (classes interfaces : List String) : BuildStep → Option (EntityKind × String)
  | .lastClass _ => classes.getLast?.map (fun n => (.class, n))
  | .openEntity name separator _ =>
    (classes.map (fun n => (EntityKind.class, n)) ++
        interfaces.map (fun n => (EntityKind.interface, n))).find?
      (fun (_, n) => TokenTree.answersTo name separator { name := n })
  | _ => none

/-- The names of the entities of a kind, in order of first insertion. -/
def names (kind : EntityKind) (steps : List BuildStep) : List String :=
  (firsts (·.name) (steps.filterMap (entity? kind))).map (·.name)

def additionsOf (kind : EntityKind) (name : String) (before : List BuildStep) (s : BuildStep) :
    List EntityToken :=
  if s.target? (names .class before) (names .interface before) = some (kind, name) then
    s.members?.toList
  else []

def additions (kind : EntityKind) (name : String) (before : List BuildStep) :
    List BuildStep → List EntityToken
  | [] => []
  | s :: steps => additionsOf kind name before s ++ additions kind name (before ++ [s]) steps

theorem additions_concat (kind : EntityKind) (name : String) (before steps : List BuildStep)
    (s : BuildStep) :
    additions kind name before (steps ++ [s]) =
      additions kind name before steps ++ additionsOf kind name (before ++ steps) s := by
  induction steps generalizing before with
  | nil => simp [additions]
  | cons s' steps ih =>
    rw [List.cons_append, additions, ih, additions, List.append_assoc, List.append_assoc,
      List.singleton_append]

theorem additions_append_toList (kind : EntityKind) (name : String) (before : List BuildStep)
    (step : Option BuildStep) :
    additions kind name [] (before ++ step.toList) =
      additions kind name [] before ++ step.toList.flatMap (additionsOf kind name before) := by
  cases step with
  | none => simp
  | some step => simp [additions_concat]

theorem mem_names_of_target? {classes interfaces : List String} {s : BuildStep}
    {kind : EntityKind} {name : String}
    (target : s.target? classes interfaces = some (kind, name)) :
    (kind = .class ∧ name ∈ classes) ∨ (kind = .interface ∧ name ∈ interfaces) := by
  cases s with
  | lastClass members =>
    obtain ⟨n, last, same⟩ := Option.map_eq_some_iff.1 target
    obtain ⟨rfl, rfl⟩ := Prod.mk.inj same
    exact .inl ⟨rfl, List.mem_of_getLast? last⟩
  | openEntity wanted separator members =>
    have member := List.mem_of_find?_eq_some target
    rcases List.mem_append.1 member with here | here
    · obtain ⟨n, inside, same⟩ := List.mem_map.1 here
      obtain ⟨rfl, rfl⟩ := Prod.mk.inj same
      exact .inl ⟨rfl, inside⟩
    · obtain ⟨n, inside, same⟩ := List.mem_map.1 here
      obtain ⟨rfl, rfl⟩ := Prod.mk.inj same
      exact .inr ⟨rfl, inside⟩
  | strict | space | importOf | entity | function | var | rule | item | declarations | media
    | data => cases target

theorem additionsOf_of_fresh {kind : EntityKind} {name : String} {before : List BuildStep}
    (fresh : name ∉ names kind before) (s : BuildStep) : additionsOf kind name before s = [] := by
  refine if_neg (fun target => fresh ?_)
  rcases mem_names_of_target? target with ⟨rfl, known⟩ | ⟨rfl, known⟩ <;> exact known

theorem mem_names {kind : EntityKind} {name : String} {steps : List BuildStep} :
    name ∈ names kind steps ↔ ∃ s ∈ steps, ∃ e, s.entity? kind = some e ∧ e.name = name := by
  rw [names, mem_map_firsts, List.mem_map]
  constructor
  · rintro ⟨e, member, same⟩
    obtain ⟨s, inside, brought⟩ := List.mem_filterMap.1 member
    exact ⟨s, inside, e, brought, same⟩
  · rintro ⟨s, inside, e, brought, same⟩
    exact ⟨e, List.mem_filterMap.2 ⟨s, inside, brought⟩, same⟩

theorem additions_of_fresh {kind : EntityKind} {name : String} {steps : List BuildStep}
    (fresh : name ∉ names kind steps) : additions kind name [] steps = [] := by
  induction steps using List.reverseRecOn with
  | nil => rfl
  | append_singleton steps s ih =>
    have earlier : name ∉ names kind steps := by
      intro known
      obtain ⟨s', inside, e, brought, same⟩ := mem_names.1 known
      exact fresh (mem_names.2 ⟨s', List.mem_append_left _ inside, e, brought, same⟩)
    rw [additions_concat, ih earlier, List.nil_append, List.nil_append,
      additionsOf_of_fresh earlier]

theorem members?_of_mem_additions {kind : EntityKind} {name : String} {m : EntityToken}
    {before steps : List BuildStep} (member : m ∈ additions kind name before steps) :
    ∃ s ∈ steps, s.members? = some m := by
  induction steps generalizing before with
  | nil => cases member
  | cons s steps ih =>
    rcases List.mem_append.1 member with here | later
    · unfold additionsOf at here
      split at here
      · exact ⟨s, List.mem_cons_self, Option.mem_toList.1 here⟩
      · cases here
    · obtain ⟨s', inside, brought⟩ := ih later
      exact ⟨s', List.mem_cons_of_mem _ inside, brought⟩

end BuildStep

namespace TokenTree

open BuildStep

theorem build_concat (steps : List BuildStep) (s : BuildStep) :
    build (steps ++ [s]) = (build steps).step s := by
  simp only [build, List.foldl_append, List.foldl_cons, List.foldl_nil]

theorem setSpace_frame (t : TokenTree) (ns : String) :
    ∃ space, t.setSpace ns = { t with space } := by
  unfold setSpace
  split
  · exact ⟨t.space, rfl⟩
  · exact ⟨some ns, rfl⟩

theorem updateOpen_frame (t : TokenTree) (name separator : String)
    (f : EntityToken → EntityToken) :
    ∃ classes interfaces, t.updateOpen name separator f = { t with classes, interfaces } := by
  unfold updateOpen
  split
  · next classes _ => exact ⟨classes, t.interfaces, rfl⟩
  · split
    · next interfaces _ => exact ⟨t.classes, interfaces, rfl⟩
    · exact ⟨t.classes, t.interfaces, rfl⟩

/-! ## Parts without entities -/

structure Changes (s : BuildStep) (t t' : TokenTree) : Prop where
  imports : t'.imports = s.import?.elim t.imports (insertNew (·.name) t.imports)
  functions : t'.functions = s.function?.elim t.functions (insertNew (·.name) t.functions)
  vars : t'.vars = s.var?.elim t.vars (insertNew (·.name) t.vars)
  rules : t'.rules = s.rule?.elim t.rules (insertNew (·.name) t.rules)
  items : t'.items = s.item?.elim t.items (insertNew (·.name) t.items)
  nodes : t'.nodes = s.declarations?.elim t.nodes (fun given => t.nodes.extend given.1 given.2)
  media : t'.media = s.media?.elim t.media (fun given =>
    t.media.upsert given.1 (fun old => (old.getD .empty).extend given.2.1 given.2.2))

theorem step_changes (t : TokenTree) (s : BuildStep) : Changes s t (t.step s) := by
  cases s with
  | entity kind e => cases kind <;> exact ⟨rfl, rfl, rfl, rfl, rfl, rfl, rfl⟩
  | space ns =>
    obtain ⟨space, changed⟩ := t.setSpace_frame ns
    rw [step, changed]
    exact ⟨rfl, rfl, rfl, rfl, rfl, rfl, rfl⟩
  | openEntity name separator members =>
    obtain ⟨classes, interfaces, changed⟩ := t.updateOpen_frame name separator (·.addMembers members)
    rw [step, changed]
    exact ⟨rfl, rfl, rfl, rfl, rfl, rfl, rfl⟩
  | strict | importOf | lastClass | function | var | rule | item | declarations | media | data =>
    exact ⟨rfl, rfl, rfl, rfl, rfl, rfl, rfl⟩

/-- The run behind the one step, for a part of the tree that each step changes by what it
brings there. -/
theorem build_foldl {σ α : Type} {part : TokenTree → σ} {brings? : BuildStep → Option α}
    {add : σ → α → σ}
    (adds : ∀ t s, part (t.step s) = (brings? s).elim (part t) (add (part t)))
    (steps : List BuildStep) :
    part (build steps) = (steps.filterMap brings?).foldl add (part empty) := by
  induction steps using List.reverseRecOn with
  | nil => rfl
  | append_singleton steps s ih =>
    rw [build_concat, adds, ih, List.filterMap_append, List.foldl_append]
    cases brought : brings? s with
    | none => rw [List.filterMap_cons_none brought, Option.elim_none]; rfl
    | some a => rw [List.filterMap_cons_some brought, Option.elim_some]; rfl

/-! ## Entities -/

private def changeTarget (target : Option (EntityKind × String)) (kind : EntityKind)
    (f : EntityToken → EntityToken) (es : List EntityToken) : List EntityToken :=
  es.map (fun e => if target = some (kind, e.name) then f e else e)

section ChangeTarget

variable {kind k : EntityKind} {n : String} {f : EntityToken → EntityToken}
  {es : List EntityToken}

private theorem changeTarget_none : changeTarget none kind f es = es := by
  simp only [changeTarget, reduceCtorEq, if_false, List.map_id']

private theorem changeTarget_of_ne (other : k ≠ kind) :
    changeTarget (some (k, n)) kind f es = es := by
  simp only [changeTarget, Option.some.injEq, Prod.mk.injEq, other, false_and, if_false,
    List.map_id']

private theorem changeTarget_self :
    changeTarget (some (kind, n)) kind f es = es.map (fun e => if n = e.name then f e else e) := by
  simp only [changeTarget, Option.some.injEq, Prod.mk.injEq, true_and]

end ChangeTarget

section OneStep

variable {t : TokenTree} (kind : EntityKind)

private def namesOf (t : TokenTree) (kind : EntityKind) : List String :=
  (t.entitiesOf kind).map (·.name)

theorem entitiesOf_addEntity (k : EntityKind) (e : EntityToken) :
    (t.addEntity k e).entitiesOf kind =
      if k = kind then insertNew (·.name) (t.entitiesOf kind) e else t.entitiesOf kind := by
  cases k <;> cases kind <;> rfl

private theorem entitiesOf_updateLastClass (f : EntityToken → EntityToken)
    (distinct : (t.namesOf .class).Nodup) (members : EntityToken) :
    (t.updateLastClass f).entitiesOf kind =
      changeTarget ((BuildStep.lastClass members).target? (t.namesOf .class) (t.namesOf .interface))
        kind f (t.entitiesOf kind) := by
  have target : (BuildStep.lastClass members).target? (t.namesOf .class) (t.namesOf .interface) =
      (t.classes.getLast?.map (·.name)).map (fun n => (.class, n)) := by
    rw [target?, namesOf, List.getLast?_map]
    rfl
  rw [target]
  cases kind with
  | interface | trait =>
    cases t.classes.getLast? with
    | none => exact changeTarget_none.symm
    | some last => exact (changeTarget_of_ne (by decide)).symm
  | «class» =>
    have changed := updateLast_eq_map f distinct
    cases last : t.classes.getLast? with
    | none =>
      rw [List.getLast?_eq_none_iff] at last
      simp only [updateLastClass, entitiesOf, last, updateLast, changeTarget, List.map_nil]
    | some e =>
      simp only [entitiesOf, last, Option.map_some, Option.some.injEq] at changed
      rw [Option.map_some, Option.map_some, changeTarget_self]
      exact changed

private theorem entitiesOf_updateOpen (name separator : String) (f : EntityToken → EntityToken)
    (classes : (t.namesOf .class).Nodup) (interfaces : (t.namesOf .interface).Nodup)
    (members : EntityToken) :
    (t.updateOpen name separator f).entitiesOf kind =
      changeTarget ((BuildStep.openEntity name separator members).target? (t.namesOf .class)
        (t.namesOf .interface)) kind f (t.entitiesOf kind) := by
  have target : (BuildStep.openEntity name separator members).target? (t.namesOf .class)
      (t.namesOf .interface) =
      ((t.classes.find? (answersTo name separator)).map (fun e => (EntityKind.class, e.name))).or
        ((t.interfaces.find? (answersTo name separator)).map
          (fun e => (EntityKind.interface, e.name))) := by
    simp only [target?, namesOf, entitiesOf, List.map_map, List.find?_append, List.find?_map]
    rfl
  have first := updateFirst?_eq_map (p := answersTo name separator) f classes
  have second := updateFirst?_eq_map (p := answersTo name separator) f interfaces
  simp only [entitiesOf] at first second
  rw [target, updateOpen, first, second]
  cases t.classes.find? (answersTo name separator) with
  | some e =>
    cases kind with
    | «class» => exact changeTarget_self.symm
    | interface | trait => exact (changeTarget_of_ne (by decide)).symm
  | none =>
    cases t.interfaces.find? (answersTo name separator) with
    | some e =>
      cases kind with
      | interface => exact changeTarget_self.symm
      | «class» | trait => exact (changeTarget_of_ne (by decide)).symm
    | none => exact changeTarget_none.symm

private theorem entitiesOf_step (s : BuildStep) (distinct : ∀ k, (t.namesOf k).Nodup) :
    (t.step s).entitiesOf kind =
      (s.entity? kind).elim
        (changeTarget (s.target? (t.namesOf .class) (t.namesOf .interface)) kind
          (fun e => s.members?.elim e e.addMembers) (t.entitiesOf kind))
        (insertNew (·.name) (t.entitiesOf kind)) := by
  cases s with
  | entity k e =>
    have added := entitiesOf_addEntity (t := t) kind k e
    by_cases same : k = kind
    · rw [if_pos same] at added
      simp only [entity?, if_pos same, Option.elim_some]
      exact added
    · rw [if_neg same] at added
      simp only [entity?, if_neg same, Option.elim_none, target?, changeTarget_none]
      exact added
  | lastClass members => exact entitiesOf_updateLastClass kind _ (distinct _) members
  | openEntity name separator members =>
    exact entitiesOf_updateOpen kind name separator _ (distinct _) (distinct _) members
  | space ns =>
    simp only [entity?, Option.elim_none, target?, changeTarget_none, step, setSpace]
    split <;> rfl
  | strict | importOf | function | var | rule | item | declarations | media | data =>
    simp only [entity?, Option.elim_none, target?, changeTarget_none]
    rfl

end OneStep

/-- The entities that steps leave in one of the three collections. -/
def entitiesAfter (kind : EntityKind) (steps : List BuildStep) : List EntityToken :=
  (firsts (·.name) (steps.filterMap (entity? kind))).map
    (fun e => e.gathered (additions kind e.name [] steps))

private theorem names_entitiesAfter (kind : EntityKind) (steps : List BuildStep) :
    (entitiesAfter kind steps).map (·.name) = names kind steps := by
  simp only [entitiesAfter, names, List.map_map, Function.comp_def, EntityToken.gathered_name]

private theorem entitiesAfter_concat_of_none {kind : EntityKind} {steps : List BuildStep}
    {s : BuildStep} (none : s.entity? kind = none) :
    entitiesAfter kind (steps ++ [s]) =
      changeTarget (s.target? (names .class steps) (names .interface steps)) kind
        (fun e => s.members?.elim e e.addMembers) (entitiesAfter kind steps) := by
  have same : (steps ++ [s]).filterMap (entity? kind) = steps.filterMap (entity? kind) := by
    rw [List.filterMap_append, List.filterMap_cons_none none, List.filterMap_nil, List.append_nil]
  rw [entitiesAfter, same, entitiesAfter, changeTarget, List.map_map]
  refine List.map_congr_left (fun e _ => ?_)
  rw [additions_concat, List.nil_append, additionsOf, Function.comp_apply,
    EntityToken.gathered_name]
  by_cases opened : s.target? (names .class steps) (names .interface steps) = some (kind, e.name)
  · rw [if_pos opened, if_pos opened]
    cases s.members? with
    | none => simp only [Option.toList_none, List.append_nil, Option.elim_none]
    | some m =>
      rw [Option.toList_some, Option.elim_some, EntityToken.addMembers_gathered]
  · rw [if_neg opened, if_neg opened, List.append_nil]

private theorem entitiesAfter_concat_of_some {kind : EntityKind} {steps : List BuildStep}
    {s : BuildStep} {e : EntityToken} (brought : s.entity? kind = some e) :
    entitiesAfter kind (steps ++ [s]) = insertNew (·.name) (entitiesAfter kind steps) e := by
  have more : (steps ++ [s]).filterMap (entity? kind) =
      steps.filterMap (entity? kind) ++ [e] := by
    rw [List.filterMap_append, List.filterMap_cons_some brought, List.filterMap_nil]
  have still (name : String) :
      additions kind name [] (steps ++ [s]) = additions kind name [] steps := by
    have opensNone : s.members? = none := by
      cases s with
      | entity => rfl
      | _ => cases brought
    rw [additions_concat, additionsOf, opensNone, Option.toList_none, ite_self, List.append_nil]
  rw [entitiesAfter, more, firsts_concat, entitiesAfter]
  simp only [still]
  by_cases known : e.name ∈ names kind steps
  · have listed : e.name ∈ (entitiesAfter kind steps).map (·.name) := by
      rwa [names_entitiesAfter]
    rw [if_pos (mem_map_firsts.1 known)]
    exact (insertNew_of_mem listed).symm
  · have unlisted : e.name ∉ (entitiesAfter kind steps).map (·.name) := by
      rwa [names_entitiesAfter]
    rw [if_neg (fun inside => known (mem_map_firsts.2 inside)), List.map_append, List.map_singleton,
      additions_of_fresh known, EntityToken.gathered_nil]
    exact (insertNew_of_not_mem unlisted).symm

/-- The run behind the one step: the entities of each kind are the first of each name, with
all members that were added to them. -/
theorem entitiesOf_build (kind : EntityKind) (steps : List BuildStep) :
    (build steps).entitiesOf kind = entitiesAfter kind steps := by
  induction steps using List.reverseRecOn generalizing kind with
  | nil => cases kind <;> rfl
  | append_singleton steps s ih =>
    have listed (k : EntityKind) : (build steps).namesOf k = names k steps := by
      rw [namesOf, ih, names_entitiesAfter]
    have distinct (k : EntityKind) : ((build steps).namesOf k).Nodup := by
      rw [listed]
      exact nodup_map_firsts _ _
    rw [build_concat, entitiesOf_step kind s distinct, listed, listed, ih]
    cases brought : s.entity? kind with
    | none => exact (entitiesAfter_concat_of_none brought).symm
    | some e => exact (entitiesAfter_concat_of_some brought).symm

private theorem exists_passed_of_mem {kind : EntityKind} {steps : List BuildStep} {e : EntityToken}
    (member : e ∈ (build steps).entitiesOf kind) :
    ∃ origin ∈ steps.flatMap passed, ∃ others : List EntityToken,
      (∀ o ∈ others, ∀ u ∈ o.traits, u ∈ steps.flatMap passed) ∧ e = origin.gathered others := by
  rw [entitiesOf_build, entitiesAfter] at member
  obtain ⟨origin, first, rfl⟩ := List.mem_map.1 member
  obtain ⟨s, inside, brought⟩ := List.mem_filterMap.1 (mem_of_mem_firsts first)
  have from' : origin ∈ s.passed := by
    cases s with
    | entity k e =>
      by_cases same : k = kind
      · rw [entity?, if_pos same] at brought
        obtain rfl := Option.some.inj brought
        exact List.mem_singleton_self e
      · rw [entity?, if_neg same] at brought
        cases brought
    | _ => cases brought
  refine ⟨origin, List.mem_flatMap.2 ⟨s, inside, from'⟩, _, ?_, rfl⟩
  intro o added u used
  obtain ⟨s', inside', given⟩ := members?_of_mem_additions added
  have from' : u ∈ s'.passed := by
    cases s' with
    | lastClass members | openEntity _ _ members =>
      obtain rfl := Option.some.inj given
      exact used
    | _ => cases given
  exact List.mem_flatMap.2 ⟨s', inside', from'⟩

/-- No name stands twice in one collection. -/
structure HasDistinctNames (t : TokenTree) : Prop where
  imports : (t.imports.map (·.name)).Nodup
  entities : ∀ kind, ((t.entitiesOf kind).map (·.name)).Nodup
  functions : (t.functions.map (·.name)).Nodup
  vars : (t.vars.map (·.name)).Nodup
  rules : (t.rules.map (·.name)).Nodup
  items : (t.items.map (·.name)).Nodup

/-- Of the tokens that steps bring, each collection lists the first of each name, in order. -/
structure ListsFirsts (steps : List BuildStep) (t : TokenTree) : Prop where
  imports : t.imports = firsts (·.name) (steps.filterMap import?)
  entities : ∀ kind, t.entitiesOf kind = entitiesAfter kind steps
  functions : t.functions = firsts (·.name) (steps.filterMap function?)
  vars : t.vars = firsts (·.name) (steps.filterMap var?)
  rules : t.rules = firsts (·.name) (steps.filterMap rule?)
  items : t.items = firsts (·.name) (steps.filterMap item?)

private theorem entities_distinct (kind : EntityKind) (steps : List BuildStep) :
    ((entitiesAfter kind steps).map (·.name)).Nodup := by
  rw [names_entitiesAfter]
  exact nodup_map_firsts _ _

theorem ListsFirsts.hasDistinctNames {steps : List BuildStep} {t : TokenTree}
    (lists : ListsFirsts steps t) : t.HasDistinctNames where
  imports := lists.imports ▸ nodup_map_firsts _ _
  entities kind := lists.entities kind ▸ entities_distinct kind steps
  functions := lists.functions ▸ nodup_map_firsts _ _
  vars := lists.vars ▸ nodup_map_firsts _ _
  rules := lists.rules ▸ nodup_map_firsts _ _
  items := lists.items ▸ nodup_map_firsts _ _

theorem build_firsts {α κ : Type} [DecidableEq κ] {key : α → κ}
    {part : TokenTree → List α} {brings? : BuildStep → Option α}
    (adds : ∀ t s, part (t.step s) = (brings? s).elim (part t) (insertNew key (part t)))
    (nothing : part empty = []) (steps : List BuildStep) :
    part (build steps) = firsts key (steps.filterMap brings?) := by
  rw [build_foldl adds, nothing, foldl_insertNew_nil]

private theorem build_listsFirsts (steps : List BuildStep) : ListsFirsts steps (build steps) where
  imports := build_firsts (fun t s => (step_changes t s).imports) rfl steps
  entities kind := entitiesOf_build kind steps
  functions := build_firsts (fun t s => (step_changes t s).functions) rfl steps
  vars := build_firsts (fun t s => (step_changes t s).vars) rfl steps
  rules := build_firsts (fun t s => (step_changes t s).rules) rfl steps
  items := build_firsts (fun t s => (step_changes t s).items) rfl steps

/-- Additions in any order leave of each name the first token, in order of first insertion, in
every collection of the tree and in the members of every entity. No name stands twice in a
collection, and no member stands twice in an entity unless it did so in one that was passed
in. -/
theorem build_lists_firsts (steps : List BuildStep) :
    ListsFirsts steps (build steps) ∧ (build steps).HasDistinctNames ∧
      ((∀ e ∈ steps.flatMap passed, e.HasDistinctMembers) →
        ∀ kind, ∀ e ∈ (build steps).entitiesOf kind, e.HasDistinctMembers) ∧
      ((∀ e ∈ steps.flatMap passed, e.IsDistinct) →
        ∀ kind, ∀ e ∈ (build steps).entitiesOf kind, e.IsDistinct) := by
  have lists := build_listsFirsts steps
  refine ⟨lists, lists.hasDistinctNames, ?own, ?deep⟩
  case own =>
    intro passed kind e member
    obtain ⟨origin, inside, others, -, rfl⟩ := exists_passed_of_mem member
    exact (passed origin inside).gathered others
  case deep =>
    intro passed kind e member
    obtain ⟨origin, inside, others, used, rfl⟩ := exists_passed_of_mem member
    refine (passed origin inside).gathered ?_
    intro o member u within
    exact passed u (used o member u within)

/-- A class is added twice and an interface once; the class gets a setter behind its getter, a
getter that it has, a trait, and two methods of one name. -/
def shopSteps : List BuildStep := [
  .entity .class { name := "App.Shop", accessors := [{ name := "total", direction := .get }] },
  .entity .interface { name := "Priced", methods := [{ name := "price" }] },
  .entity .class { name := "App.Shop", isAbstract := true },
  .lastClass
    { name := "",
      accessors := [
        { name := "total", direction := .set },
        { name := "total", direction := .get, isAbstract := true }],
      traits := [{ name := "Audit", methods := [{ name := "log" }] }] },
  .openEntity "Shop" "."
    { name := "", methods := [{ name := "run" }, { name := "run", isStatic := true }] }]

theorem build_lists_firsts_shop :
    (∀ e ∈ shopSteps.flatMap passed, e.IsDistinct) ∧
      (∀ kind, ∀ e ∈ (build shopSteps).entitiesOf kind, e.IsDistinct) ∧
      (build shopSteps).classes.map (fun e => (e.name, e.isAbstract)) = [("App.Shop", false)] ∧
      ((build shopSteps).classes.flatMap (·.accessors)).map (·.direction) = [.get, .set] ∧
      ((build shopSteps).classes.flatMap (·.methods)).map (·.isStatic) = [false] := by
  have distinct : ∀ e ∈ shopSteps.flatMap passed, e.IsDistinct := by
    intro e member
    simp only [shopSteps, passed, List.flatMap_cons, List.flatMap_nil, List.mem_append,
      List.mem_singleton, List.not_mem_nil, or_false] at member
    rcases member with rfl | rfl | rfl | rfl <;>
      exact ⟨⟨by simp, by simp, by simp, by simp, by simp⟩, by simp⟩
  obtain ⟨-, -, -, deep⟩ := build_lists_firsts shopSteps
  exact ⟨distinct, deep distinct, by decide, by decide, by decide⟩

end TokenTree

end CodeOutline
