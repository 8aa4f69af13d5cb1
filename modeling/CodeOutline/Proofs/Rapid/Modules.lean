import CodeOutline.Analyzer
import CodeOutline.Proofs.Rapid.Lines

/-!
The module that a member goes to. It is the one that was named last for the first time; a module
line that names an earlier module again does not bring it back. The modules of an outline are told
from the lines alone, each with its members.
-/

set_option autoImplicit false

namespace CodeOutline.Analysis.Rapid

open BuildStep (names additions additionsOf)

/-- The names on module lines, in order. -/
def namesOf (lines : List Line) : List String := (lines.filterMap moduleOf?).map (·.name)

/-- The name on the last module line. -/
def nearest? (lines : List Line) : Option String := (namesOf lines).getLast?

/-- The last name that a module line has first. -/
def newest? (lines : List Line) : Option String := (firsts id (namesOf lines)).getLast?

/-- The members of the lines behind which a module is the newest. -/
def joined (lines : List Line) (name : String) : List Member :=
  (withBefore [] lines).flatMap (fun (before, line) =>
    if newest? before = some name then (memberOf? line).toList else [])

namespace Member

/-- The entity has a member of that kind and name. -/
def StandsIn (e : EntityToken) : Member → Prop
  | .record p => p.name ∈ e.properties.map (·.name)
  | .routine m => m.name ∈ e.methods.map (·.name)

instance (e : EntityToken) (m : Member) : Decidable (m.StandsIn e) := by
  cases m <;> delta StandsIn <;> infer_instance

end Member

/-- Every member goes to the module that is named on the nearest module line in front of it. -/
def JoinsNearest (lines : List Line) (t : TokenTree) : Prop :=
  ∀ x ∈ withBefore [] lines, ∀ m ∈ memberOf? x.2, ∀ name ∈ nearest? x.1,
    ∃ e ∈ t.classes, e.name = name ∧ m.StandsIn e

instance (lines : List Line) (t : TokenTree) : Decidable (JoinsNearest lines t) := by
  delta JoinsNearest
  infer_instance

/-- A module that is named again behind another one. -/
def reopened : Document :=
  { language := "rapid", file := "a.mod", text := "MODULE A\nMODULE B\nMODULE A\nRECORD r" }

theorem not_joinsNearest : ∃ t ∈ (Analyzer.rapid.read reopened {}).toOption,
    ¬ JoinsNearest (linesOf reopened.text) t := by
  decide +kernel

/-! Modules with their members -/

/-- A module with members, the first record and the first routine of each name. -/
def holding (e : EntityToken) (members : List Member) : EntityToken :=
  { e with
    properties := firsts (·.name) (members.filterMap Member.record?)
    methods := firsts (·.name) (members.filterMap Member.routine?) }

section Steps

variable (lines : List Line) (line : Line)

theorem joined_concat (name : String) :
    joined (lines ++ [line]) name = joined lines name ++
      if newest? lines = some name then (memberOf? line).toList else [] := by
  simp only [joined, withBefore_concat, List.nil_append, List.flatMap_append, List.flatMap_cons,
    List.flatMap_nil, List.append_nil]

theorem filterMap_entity? :
    (lines.filterMap stepOf?).filterMap (BuildStep.entity? .class) =
      lines.filterMap moduleOf? := by
  rw [List.filterMap_filterMap]
  simp only [entity?_stepOf?, if_true]

theorem names_steps : names .class (lines.filterMap stepOf?) = firsts id (namesOf lines) := by
  rw [names, filterMap_entity?, namesOf, firsts_map]
  rfl

theorem stepOf?_of_member {m : Member} (declares : memberOf? line = some m) :
    stepOf? line = some (.lastClass m.alone) := by
  have noModule : moduleOf? line = none := by
    unfold memberOf? at declares
    unfold moduleOf?
    split
    · next found =>
      rw [found] at declares
      cases declares
    · rfl
  rw [stepOf?, noModule, declares]
  rfl

private theorem additionsOf_step (name : String) :
    (stepOf? line).toList.flatMap (additionsOf .class name (lines.filterMap stepOf?)) =
      (if newest? lines = some name then (memberOf? line).toList else []).map Member.alone := by
  cases declares : memberOf? line with
  | none =>
    have nothing : ∀ s ∈ stepOf? line, s.members? = none := by
      unfold stepOf?
      rw [declares]
      cases moduleOf? line with
      | some e => simp [BuildStep.members?]
      | none => cases trapOf? line <;> simp [BuildStep.members?]
    have brings : (stepOf? line).toList.flatMap
        (additionsOf .class name (lines.filterMap stepOf?)) = [] := by
      refine List.flatMap_eq_nil_iff.2 (fun s member => ?_)
      rw [additionsOf, nothing s (Option.mem_toList.1 member), Option.toList_none, ite_self]
    rw [brings, Option.toList_none, ite_self, List.map_nil]
  | some m =>
    have target : (BuildStep.lastClass m.alone).target? (names .class (lines.filterMap stepOf?))
        (names .interface (lines.filterMap stepOf?)) =
          (newest? lines).map (fun n => (EntityKind.class, n)) := by
      rw [BuildStep.target?, names_steps, newest?]
    have goes : (newest? lines).map (fun n => (EntityKind.class, n)) = some (.class, name) ↔
        newest? lines = some name := by
      cases newest? lines <;> simp
    rw [stepOf?_of_member line declares, Option.toList_some, List.flatMap_singleton, additionsOf,
      target]
    simp only [goes]
    split <;> rfl

theorem additions_steps (name : String) :
    additions .class name [] (lines.filterMap stepOf?) = (joined lines name).map Member.alone := by
  induction lines using List.reverseRecOn with
  | nil => rfl
  | append_singleton lines line ih =>
    have one : [line].filterMap stepOf? = (stepOf? line).toList := by
      cases brings : stepOf? line with
      | none => exact List.filterMap_cons_none brings
      | some step => exact List.filterMap_cons_some brings
    rw [List.filterMap_append, one, BuildStep.additions_append_toList, ih, additionsOf_step,
      joined_concat, List.map_append]

end Steps

theorem standsIn_holding (e : EntityToken) {members : List Member} {m : Member}
    (member : m ∈ members) : m.StandsIn (holding e members) := by
  cases m with
  | record p =>
    have among : p ∈ members.filterMap Member.record? := List.mem_filterMap.2 ⟨_, member, rfl⟩
    exact mem_map_firsts.2 (List.mem_map_of_mem among)
  | routine r =>
    have among : r ∈ members.filterMap Member.routine? := List.mem_filterMap.2 ⟨_, member, rfl⟩
    exact mem_map_firsts.2 (List.mem_map_of_mem among)

theorem eq_of_moduleOf? {line : Line} {e : EntityToken} (begins : moduleOf? line = some e) :
    e = { name := e.name, span := e.span } := by
  unfold moduleOf? at begins
  split at begins
  · split at begins
    · cases begins
    · obtain rfl := Option.some.inj begins
      rfl
  · cases begins

theorem gathered_module {line : Line} {e : EntityToken} (begins : moduleOf? line = some e)
    (members : List Member) : e.gathered (members.map Member.alone) = holding e members := by
  have records : (members.map Member.alone).flatMap (·.properties) =
      members.filterMap Member.record? := by
    rw [List.flatMap_map, List.filterMap_eq_flatMap_toList]
    refine List.flatMap_congr (fun m _ => ?_)
    cases m <;> rfl
  have routines : (members.map Member.alone).flatMap (·.methods) =
      members.filterMap Member.routine? := by
    rw [List.flatMap_map, List.filterMap_eq_flatMap_toList]
    refine List.flatMap_congr (fun m _ => ?_)
    cases m <;> rfl
  have none {β : Type} (part : EntityToken → List β) (empty : ∀ m : Member, part m.alone = []) :
      (members.map Member.alone).flatMap part = [] := by
    rw [List.flatMap_map]
    exact List.flatMap_eq_nil_iff.2 (fun m _ => empty m)
  rw [eq_of_moduleOf? begins, EntityToken.gathered, holding]
  simp only [records, routines, nil_withFirsts]
  rw [none (·.constants) (by rintro (_ | _) <;> rfl),
    none (·.accessors) (by rintro (_ | _) <;> rfl),
    none (·.traits) (by rintro (_ | _) <;> rfl)]
  rfl

/-- The modules of an outline are the first of each name, each with the members of the lines behind
which it is the newest. -/
theorem classes_tree (text : String) :
    (tree text).classes = (firsts (·.name) ((linesOf text).filterMap moduleOf?)).map (fun e =>
      holding e (joined (linesOf text) e.name)) := by
  have built := TokenTree.entitiesOf_build .class ((linesOf text).filterMap stepOf?)
  rw [← tree_eq_build, TokenTree.entitiesAfter, filterMap_entity?] at built
  refine built.trans (List.map_congr_left (fun e first => ?_))
  obtain ⟨line, -, begins⟩ := List.mem_filterMap.1 (mem_of_mem_firsts first)
  rw [additions_steps, gathered_module begins]

/-! The newest module and the nearest -/

section Nearest

variable {lines : List Line}

theorem newest?_eq_none_iff : newest? lines = none ↔ nearest? lines = none := by
  rw [newest?, nearest?, List.getLast?_eq_none_iff, List.getLast?_eq_none_iff]
  cases namesOf lines with
  | nil => exact Iff.rfl
  | cons name names => simp [firsts]

theorem newest?_eq_nearest? (distinct : (namesOf lines).Nodup) :
    newest? lines = nearest? lines := by
  have alone : firsts id (namesOf lines) = namesOf lines := firsts_eq_self (by rwa [List.map_id])
  rw [newest?, alone, nearest?]

theorem newest?_eq_some_iff {front back : List String} {name : String}
    (parts : namesOf lines = front ++ name :: back) (first : name ∉ front) :
    newest? lines = some name ↔ ∀ other ∈ back, other ∈ name :: front := by
  have known (other : String) : other ∉ (front ++ [name]).map id ↔ other ∉ name :: front := by
    simp [or_comm]
  have split : firsts id (namesOf lines) = firsts id front ++ [name] ++
      (firsts id back).filter (fun other => other ∉ name :: front) := by
    have one : firsts id (front ++ [name]) = firsts id front ++ [name] := by
      rw [firsts_concat, if_neg (by simpa using first)]
    have apart : front ++ name :: back = front ++ [name] ++ back := by simp
    rw [parts, apart, firsts_append, one]
    simp only [id_eq, known]
  rw [newest?, split]
  constructor
  · intro last other member
    by_contra unknown
    have listed : other ∈ firsts id back := by
      have among : other ∈ (firsts id back).map id :=
        mem_map_firsts.2 (List.mem_map_of_mem member)
      rwa [List.map_id] at among
    have later : other ∈ (firsts id back).filter (fun other => other ∉ name :: front) :=
      List.mem_filter.2 ⟨listed, decide_eq_true unknown⟩
    have ends := List.getLast?_eq_some_getLast (List.ne_nil_of_mem later)
    have new := of_decide_eq_true (List.mem_filter.1 (List.mem_of_getLast? ends)).2
    rw [List.getLast?_append, ends, Option.some_or] at last
    rw [Option.some.inj last] at new
    exact new List.mem_cons_self
  · intro others
    have nothing : (firsts id back).filter (fun other => other ∉ name :: front) = [] := by
      refine List.filter_eq_nil_iff.2 (fun other listed => ?_)
      have known := others other (mem_of_mem_firsts listed)
      exact fun new => of_decide_eq_true new known
    rw [nothing, List.append_nil, List.getLast?_concat]

end Nearest

/-- A member goes to the module that was named last for the first time, whose entity then lists it.
That is the module of the nearest module line exactly when no other module was named for the first
time behind the first line of that one; so it always is as long as no module is named twice. -/
theorem members_join_newest (d : Document) (settings : LanguageSettings) :
    ∃ t, Analyzer.rapid.read d settings = .ok t ∧
      (t.classes = (firsts (·.name) ((linesOf d.text).filterMap moduleOf?)).map (fun e =>
        holding e (joined (linesOf d.text) e.name))) ∧
      ∀ before line after, linesOf d.text = before ++ line :: after →
        (newest? before = none ↔ nearest? before = none) ∧
        (∀ front name back, namesOf before = front ++ name :: back → name ∉ front →
          (newest? before = some name ↔ ∀ other ∈ back, other ∈ name :: front)) ∧
        ((namesOf before).Nodup → newest? before = nearest? before) ∧
        ∀ m ∈ memberOf? line, ∀ name ∈ newest? before,
          ∃ e ∈ t.classes, e.name = name ∧ m.StandsIn e := by
  refine ⟨tree d.text, rfl, classes_tree d.text, fun before line after parts => ?_⟩
  refine ⟨newest?_eq_none_iff, fun _ _ _ parts first => newest?_eq_some_iff parts first,
    newest?_eq_nearest?, ?_⟩
  intro m declares name newest
  have named : name ∈ namesOf before := by
    have last := mem_of_mem_firsts (List.mem_of_getLast? newest)
    exact last
  obtain ⟨first, listed, same⟩ : ∃ e ∈ firsts (·.name) ((linesOf d.text).filterMap moduleOf?),
      e.name = name := by
    rw [← List.mem_map, mem_map_firsts, parts, List.filterMap_append, List.map_append]
    exact List.mem_append_left _ named
  have joins : m ∈ joined (linesOf d.text) name := by
    have here : (before, line) ∈ withBefore [] (linesOf d.text) :=
      mem_withBefore.2 ⟨before, after, parts, rfl⟩
    have brought : m ∈ if newest? before = some name then (memberOf? line).toList else [] := by
      rw [if_pos (Option.mem_def.1 newest)]
      exact Option.mem_toList.2 declares
    exact List.mem_flatMap.2 ⟨_, here, brought⟩
  rw [classes_tree]
  refine ⟨_, List.mem_map_of_mem listed, same, ?_⟩
  rw [same]
  exact standsIn_holding first joins

end CodeOutline.Analysis.Rapid
