import CodeOutline.Proofs.Rapid.Modules
import CodeOutline.Proofs.Token.Spans

/-!
Outlines of programs that name no module twice, told from what the lines declare, places and
visibility apart: every module has the members on the lines between its own and the next one.
-/

set_option autoImplicit false

namespace CodeOutline.Analysis.Rapid

/-- What a line declares. -/
def declared (raw : String) : Option Declaration := declaration? (codeOf raw)

def Member.bare : Member → Member
  | .record p => .record p.bare
  | .routine m => .routine m.bare

/-! Members of modules with distinct names -/

/-- A module by its name, or a member. -/
abbrev Part := String ⊕ Member

/-- The part that a declaration is, places and visibility apart. -/
def Declaration.part? : Declaration → Option Part
  | .module name => if name.isEmpty then none else some (.inl name)
  | .record name => some (.inr (.record { name }))
  | .routine type name written =>
    if name.isEmpty then none
    else some (.inr (.routine
      { name, type := some (type.getD noType), arguments := arguments written }))
  | .trap _ _ => none

def partOf? (line : Line) : Option Part := (declared line.1).bind Declaration.part?

def partsOf (groups : List (String × List Member)) : List Part :=
  groups.flatMap (fun group => .inl group.1 :: group.2.map .inr)

section Parts

variable (line : Line)

theorem name_moduleOf? :
    (moduleOf? line).map (·.name) = (partOf? line).bind Sum.getLeft? := by
  unfold moduleOf? partOf? declared
  cases declaration? (codeOf line.1) with
  | none => rfl
  | some d =>
    cases d with
    | module name | routine type name written =>
      cases empty : name.isEmpty <;> simp [Declaration.part?, empty]
    | record name | trap type name => rfl

theorem bare_arguments (written : String) :
    (arguments written).map (fun a => { a with span := none }) = arguments written := by
  rw [arguments, List.map_map]
  rfl

theorem bare_memberOf? :
    (memberOf? line).map Member.bare = (partOf? line).bind Sum.getRight? := by
  unfold memberOf? partOf? declared
  cases declaration? (codeOf line.1) with
  | none => rfl
  | some d =>
    cases d with
    | module name | routine type name written =>
      cases empty : name.isEmpty <;>
        simp [Declaration.part?, empty, Member.bare, MethodToken.bare, methodOf, bare_arguments]
    | record name | trap type name => rfl

end Parts

theorem filterMap_partOf? (text : String) : (linesOf text).filterMap partOf? =
    ((Text.lines text).filterMap declared).filterMap Declaration.part? := by
  rw [← map_fst_linesOf, List.filterMap_map, List.filterMap_filterMap]
  refine List.filterMap_congr (fun line _ => ?_)
  rw [partOf?, Function.comp_apply]

section Groups

variable {lines : List Line}

theorem namesOf_parts : namesOf lines = (lines.filterMap partOf?).filterMap Sum.getLeft? := by
  rw [namesOf, List.map_filterMap, List.filterMap_filterMap]
  exact List.filterMap_congr (fun line _ => name_moduleOf? line)

theorem members_parts : (lines.filterMap memberOf?).map Member.bare =
    (lines.filterMap partOf?).filterMap Sum.getRight? := by
  rw [List.map_filterMap, List.filterMap_filterMap]
  exact List.filterMap_congr (fun line _ => bare_memberOf? line)

theorem namesOf_append (before : List Line) :
    namesOf (before ++ lines) = namesOf before ++ namesOf lines := by
  rw [namesOf, List.filterMap_append, List.map_append, namesOf, namesOf]

theorem joined_append (before : List Line) (name : String) (noModule : namesOf lines = []) :
    joined (before ++ lines) name = joined before name ++
      if newest? before = some name then lines.filterMap memberOf? else [] := by
  induction lines using List.reverseRecOn with
  | nil => simp
  | append_singleton lines line ih =>
    obtain ⟨earlier, -⟩ := List.append_eq_nil_iff.1 ((namesOf_append lines).symm.trans noModule)
    have still : newest? (before ++ lines) = newest? before := by
      rw [newest?, namesOf_append, earlier, List.append_nil, newest?]
    rw [← List.append_assoc, joined_concat, ih earlier, still, List.filterMap_append,
      List.append_assoc]
    split
    · cases declares : memberOf? line <;> simp [declares]
    · rfl

theorem lefts_partsOf (groups : List (String × List Member)) :
    (partsOf groups).filterMap Sum.getLeft? = groups.map Prod.fst := by
  induction groups with
  | nil => rfl
  | cons group groups ih =>
    have nothing : (group.2.map (Sum.inr (α := String))).filterMap Sum.getLeft? = [] := by
      simp
    rw [partsOf, List.flatMap_cons, List.cons_append, List.filterMap_cons, List.filterMap_append,
      nothing]
    exact congrArg (group.1 :: ·) ih

theorem exists_module_line {groups : List (String × List Member)} {group : String × List Member}
    (parts : lines.filterMap partOf? = partsOf (groups ++ [group])) :
    ∃ front line back, lines = front ++ line :: back ∧ front.filterMap partOf? = partsOf groups ∧
      partOf? line = some (.inl group.1) ∧ back.filterMap partOf? = group.2.map .inr := by
  rw [partsOf, List.flatMap_append, List.flatMap_singleton] at parts
  obtain ⟨front, rest, rfl, earlier, later⟩ := List.filterMap_eq_append_iff.1 parts
  obtain ⟨gap, line, back, rfl, nothing, begins, members⟩ := List.filterMap_eq_cons_iff.1 later
  refine ⟨front ++ gap, line, back, by simp, ?_, begins, members⟩
  rw [List.filterMap_append, earlier, List.filterMap_eq_nil_iff.2 nothing, List.append_nil, partsOf]

theorem joined_groups {groups : List (String × List Member)}
    (distinct : (groups.map Prod.fst).Nodup) (parts : lines.filterMap partOf? = partsOf groups)
    (name : String) : (joined lines name).map Member.bare =
      groups.flatMap (fun group => if group.1 = name then group.2 else []) := by
  induction groups using List.reverseRecOn generalizing lines with
  | nil =>
    have noNames : namesOf lines = [] := by
      rw [namesOf_parts, parts]
      rfl
    have brings := joined_append [] name noNames
    have none : newest? [] = none := rfl
    rw [List.nil_append, none, if_neg (by simp)] at brings
    rw [brings]
    rfl
  | append_singleton groups group ih =>
    obtain ⟨front, line, back, rfl, earlier, begins, later⟩ := exists_module_line parts
    have known : (groups.map Prod.fst).Nodup := by
      rw [List.map_append] at distinct
      exact distinct.of_append_left
    have named : namesOf (front ++ [line]) = (groups ++ [group]).map Prod.fst := by
      have one : [line].filterMap partOf? = [.inl group.1] := List.filterMap_cons_some begins
      rw [namesOf_append, namesOf_parts, earlier, lefts_partsOf, namesOf_parts, one,
        List.map_append]
      rfl
    have newest : newest? (front ++ [line]) = some group.1 := by
      rw [newest?_eq_nearest? (by rwa [named]), nearest?, named, List.map_append,
        List.map_singleton, List.getLast?_concat]
    have noNames : namesOf back = [] := by
      rw [namesOf_parts, later]
      simp
    have noMember : memberOf? line = none := by
      have brings := bare_memberOf? line
      rw [begins, Option.bind_some, Sum.getRight?_inl, Option.map_eq_none_iff] at brings
      exact brings
    have quiet : joined (front ++ [line]) name = joined front name := by
      rw [joined_concat, noMember, Option.toList_none, ite_self, List.append_nil]
    have own : (back.filterMap memberOf?).map Member.bare = group.2 := by
      rw [members_parts, later, List.filterMap_map]
      exact List.filterMap_some
    have whole : front ++ line :: back = front ++ [line] ++ back := by simp
    rw [whole, joined_append _ _ noNames, quiet, List.map_append, ih known earlier,
      List.flatMap_append, List.flatMap_singleton]
    simp only [newest, Option.some.injEq]
    split
    · rw [own]
    · rfl

theorem members_of_group {groups : List (String × List Member)}
    (distinct : (groups.map Prod.fst).Nodup) {group : String × List Member}
    (member : group ∈ groups) :
    groups.flatMap (fun other => if other.1 = group.1 then other.2 else []) = group.2 := by
  obtain ⟨front, back, rfl⟩ := List.append_of_mem member
  rw [List.map_append, List.map_cons, List.nodup_middle, List.nodup_cons, List.mem_append,
    not_or] at distinct
  have nothing {others : List (String × List Member)} (absent : group.1 ∉ others.map Prod.fst) :
      others.flatMap (fun other => if other.1 = group.1 then other.2 else []) = [] := by
    refine List.flatMap_eq_nil_iff.2 (fun other among => if_neg (fun same => ?_))
    exact absent (List.mem_map.2 ⟨other, among, same⟩)
  rw [List.flatMap_append, List.flatMap_cons, nothing distinct.1.1, nothing distinct.1.2,
    if_pos rfl, List.nil_append, List.append_nil]

theorem bare_holding (e : EntityToken) (members : List Member) :
    (holding e members).bare = holding e.bare (members.map Member.bare) := by
  have records : (members.filterMap Member.record?).map PropertyToken.bare =
      (members.map Member.bare).filterMap Member.record? := by
    rw [List.map_filterMap, List.filterMap_map]
    refine List.filterMap_congr (fun m _ => ?_)
    cases m <;> rfl
  have routines : (members.filterMap Member.routine?).map MethodToken.bare =
      (members.map Member.bare).filterMap Member.routine? := by
    rw [List.map_filterMap, List.filterMap_map]
    refine List.filterMap_congr (fun m _ => ?_)
    cases m <;> rfl
  rw [holding, holding, ← records, ← routines, firsts_map, firsts_map]
  rfl

theorem bare_classes {text : String} {groups : List (String × List Member)}
    (distinct : (groups.map Prod.fst).Nodup)
    (parts : (linesOf text).filterMap partOf? = partsOf groups) :
    (tree text).classes.map EntityToken.bare =
      groups.map (fun group => holding { name := group.1 } group.2) := by
  have named : namesOf (linesOf text) = groups.map Prod.fst := by
    rw [namesOf_parts, parts, lefts_partsOf]
  have first : firsts (·.name) ((linesOf text).filterMap moduleOf?) =
      (linesOf text).filterMap moduleOf? := by
    refine firsts_eq_self ?_
    have names : (namesOf (linesOf text)).Nodup := by rwa [named]
    exact names
  calc (tree text).classes.map EntityToken.bare
      = ((linesOf text).filterMap moduleOf?).map (fun e =>
          holding { name := e.name } ((joined (linesOf text) e.name).map Member.bare)) := by
        rw [classes_tree, first, List.map_map]
        refine List.map_congr_left (fun e member => ?_)
        obtain ⟨line, -, begins⟩ := List.mem_filterMap.1 member
        have plain : e.bare = { name := e.name } := by
          rw [eq_of_moduleOf? begins]
          rfl
        rw [Function.comp_apply, bare_holding, plain]
    _ = (namesOf (linesOf text)).map (fun name =>
          holding { name } ((joined (linesOf text) name).map Member.bare)) := by
        rw [namesOf, List.map_map]
        rfl
    _ = groups.map (fun group => holding { name := group.1 } group.2) := by
        rw [named, List.map_map]
        refine List.map_congr_left (fun group member => ?_)
        rw [Function.comp_apply, joined_groups distinct parts, members_of_group distinct member]

end Groups

/-! Traps -/

/-- The trap that a declaration is, without its place and visibility. -/
def Declaration.trap? : Declaration → Option MethodToken
  | .trap type name =>
    if name.isEmpty then none
    else some { name, type := some (type.getD noType), isStatic := true }
  | _ => none

theorem bare_trapOf? (line : Line) :
    (trapOf? line).map MethodToken.bare = (declared line.1).bind Declaration.trap? := by
  unfold trapOf? declared
  cases declaration? (codeOf line.1) with
  | none => rfl
  | some d =>
    cases d with
    | trap type name =>
      cases empty : name.isEmpty <;>
        simp [Declaration.trap?, empty, MethodToken.bare, methodOf]
    | module name | record name | routine type name written => rfl

theorem function?_stepOf? (line : Line) :
    (stepOf? line).bind BuildStep.function? = trapOf? line := by
  unfold stepOf? moduleOf? memberOf? trapOf?
  cases declaration? (codeOf line.1) with
  | none => rfl
  | some d =>
    cases d with
    | module name | routine type name written | trap type name =>
      cases empty : name.isEmpty <;> simp [empty, BuildStep.function?]
    | record name => rfl

theorem functions_tree (text : String) :
    (tree text).functions = firsts (·.name) ((linesOf text).filterMap trapOf?) := by
  have all := TokenTree.build_firsts (fun t s => (TokenTree.step_changes t s).functions) rfl
    ((linesOf text).filterMap stepOf?)
  rw [← tree_eq_build, List.filterMap_filterMap] at all
  simpa only [function?_stepOf?] using all

theorem bare_functions (text : String) :
    (tree text).functions.map MethodToken.bare =
      firsts (·.name) (((Text.lines text).filterMap declared).filterMap Declaration.trap?) := by
  have traps : ((linesOf text).filterMap trapOf?).map MethodToken.bare =
      ((Text.lines text).filterMap declared).filterMap Declaration.trap? := by
    rw [← map_fst_linesOf, List.map_filterMap, List.filterMap_map, List.filterMap_filterMap]
    refine List.filterMap_congr (fun line _ => ?_)
    rw [bare_trapOf?, Function.comp_apply]
  rw [functions_tree, ← traps, firsts_map]
  rfl

theorem addLine_frame (t : TokenTree) (line : Line) :
    ∃ classes functions, addLine t line = { t with classes, functions } := by
  unfold addLine
  dsimp only
  split
  · exact ⟨t.classes, t.functions, rfl⟩
  · split
    · exact ⟨t.classes, t.functions, rfl⟩
    · exact ⟨_, t.functions, rfl⟩
  · exact ⟨_, t.functions, rfl⟩
  · split
    · exact ⟨t.classes, t.functions, rfl⟩
    · exact ⟨_, t.functions, rfl⟩
  · split
    · exact ⟨t.classes, t.functions, rfl⟩
    · exact ⟨t.classes, _, rfl⟩

theorem tree_frame (text : String) : ∃ classes functions, tree text = { classes, functions } := by
  have run (lines : List Line) (t : TokenTree) :
      ∃ classes functions, lines.foldl addLine t = { t with classes, functions } := by
    induction lines generalizing t with
    | nil => exact ⟨t.classes, t.functions, rfl⟩
    | cons line lines ih =>
      obtain ⟨_, _, one⟩ := addLine_frame t line
      obtain ⟨classes, functions, others⟩ := ih (addLine t line)
      refine ⟨classes, functions, ?_⟩
      rw [List.foldl_cons, others, one]
  exact run _ .empty

end CodeOutline.Analysis.Rapid
