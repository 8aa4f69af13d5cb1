import CodeOutline.Analysis.Script
import CodeOutline.Proofs.Php.Declarations
import CodeOutline.Proofs.Text.Pieces

/-!
The namespaces in the names that the walks over scripts and over PHP give: each entity is named
with the namespace that its place in the syntax tree tells.
-/

set_option autoImplicit false

namespace CodeOutline.Analysis

open Syntax

/-! ## Scripts -/

namespace Script

/-- The walk goes through exports, declarations for the compiler, and bodies of namespaces. -/
def entered (n : Node) : List Node :=
  match n.kind with
  | "export_statement" =>
    match n.child? "declaration" with
    | some declared => [declared]
    | none => n.named
  | "internal_module" | "module" =>
    match n.child? "name", n.child? "body" with
    | some _, some body => body.named
    | _, _ => []
  | "expression_statement" => n.named.filter (·.kind == "internal_module")
  | "ambient_declaration" => n.named
  | _ => []

theorem sizeOf_of_mem_entered {n c : Node} (member : c ∈ entered n) : sizeOf c < sizeOf n := by
  unfold entered at member
  split at member
  case h_1 =>
    split at member
    · next declared found =>
      obtain rfl := List.mem_singleton.1 member
      exact Node.sizeOf_of_child? found
    · exact Node.sizeOf_of_mem_named member
  case h_2 | h_3 =>
    split at member
    · next body _ found =>
      exact Nat.lt_trans (Node.sizeOf_of_mem_named member) (Node.sizeOf_of_child? found)
    · cases member
  case h_4 => exact Node.sizeOf_of_mem_named (List.mem_filter.1 member).1
  case h_5 => exact Node.sizeOf_of_mem_named member
  case h_6 => cases member

def descent : Descent := ⟨entered, sizeOf_of_mem_entered⟩

def spaceName? (n : Node) : Option String :=
  if n.kind = "internal_module" ∨ n.kind = "module" then
    (n.child? "name").map (fun name => Text.unquote name.text)
  else none

/-- The names of the namespaces around a statement, from the outermost to the innermost; nothing
outside of all namespaces. -/
def spaceOf (above : List Node) : Option String :=
  match above.filterMap spaceName? with
  | [] => none
  | names => some (separator.intercalate names)

def entityKind? : String → Option EntityKind
  | "class_declaration" | "abstract_class_declaration" | "class" => some .class
  | "interface_declaration" => some .interface
  | _ => none

/-- The entity that a statement declares. -/
def shown? (position : NamespacePosition) (at_ : List Node × Node) : Option Shown :=
  (entityKind? at_.2.kind).bind (fun kind => (at_.2.child? "name").map (fun name =>
    ⟨kind, Name.qualify name.text (spaceOf at_.1) separator position, some name.span⟩))

/-- The namespace that a statement opens, with the namespaces around it. -/
def opened? (at_ : List Node × Node) : Option String :=
  (spaceName? at_.2).bind (fun _ => spaceOf (at_.1 ++ [at_.2]))

/-- What a statement does by itself. -/
def own (s : Setting) (t : TokenTree) (n : Node) : TokenTree :=
  match n.kind with
  | "import_statement" => addImport t n
  | "internal_module" | "module" =>
    match n.child? "name" with
    | none => t
    | some name => if t.space.isNone then t.setSpace (innerSpace s.space name) else t
  | "class_declaration" | "abstract_class_declaration" | "class" =>
    addEntity s .class addClassMember t n
  | "interface_declaration" => addEntity s .interface addInterfaceMember t n
  | "function_declaration" => addFunction s.isTyped t n
  | "lexical_declaration" | "variable_declaration" => addVariables s.isTyped t n
  | _ => t

/-- What the statements in a statement are read with. -/
def inside (s : Setting) (n : Node) : Setting :=
  match n.kind with
  | "export_statement" => { s with isExported := true }
  | "internal_module" | "module" =>
    { s with isExported := false, space := (n.child? "name").map (innerSpace s.space) }
  | _ => s

theorem visit_eq (s : Setting) (t : TokenTree) (n : Node) :
    visit s t n = (entered n).foldl (visit (inside s n)) (own s t n) := by
  unfold visit entered inside own
  split
  case h_2 kind =>
    rw [kind]
    dsimp only
    split
    · next declared found => rw [found]; rfl
    · next found => rw [found]; simp
  case h_3 kind | h_4 kind =>
    rw [kind]
    dsimp only
    split
    · next unnamed => rw [unnamed]; rfl
    · next name named =>
      rw [named]
      split
      · next bare => rw [bare]; rfl
      · next body found => rw [found]; simp
  case h_5 kind | h_6 kind =>
    rw [kind]
    simp
  all_goals simp_all

section Names

variable {above : List Node} {n : Node}

theorem spaceOf_of_other (other : spaceName? n = none) :
    spaceOf (above ++ [n]) = spaceOf above := by
  rw [spaceOf, List.filterMap_append, List.filterMap_cons_none other, List.filterMap_nil,
    List.append_nil, spaceOf]

theorem spaceOf_of_space {name : Node} (kind : n.kind = "internal_module" ∨ n.kind = "module")
    (named : n.child? "name" = some name) :
    spaceOf (above ++ [n]) = some (innerSpace (spaceOf above) name) := by
  have own : spaceName? n = some (Text.unquote name.text) := by
    rw [spaceName?, if_pos kind, named, Option.map_some]
  rw [spaceOf, List.filterMap_append, List.filterMap_cons_some own, List.filterMap_nil, spaceOf]
  cases outer : above.filterMap spaceName? with
  | nil => simp [innerSpace]
  | cons first rest =>
    have several : (first :: rest).map String.toList ≠ [] := by simp
    have joined := Text.intercalate_concat separator.toList several (Text.unquote name.text).toList
    have whole : separator.intercalate ((first :: rest) ++ [Text.unquote name.text]) =
        separator.intercalate (first :: rest) ++ separator ++ Text.unquote name.text := by
      rw [← String.toList_inj, String.toList_intercalate, List.map_append, List.map_singleton,
        joined]
      simp only [String.toList_append, String.toList_intercalate]
    rw [List.cons_append] at whole
    exact congrArg some whole

end Names

/-! What one statement does, and from it the walk -/

theorem addImport_sameHead (t : TokenTree) (n : Node) : SameHead t (addImport t n) := by
  unfold addImport
  split
  · exact .refl t
  · exact ⟨rfl, fun kind => by cases kind <;> rfl⟩

theorem addFunction_sameHead (isTyped : Bool) (t : TokenTree) (n : Node) :
    SameHead t (addFunction isTyped t n) := by
  unfold addFunction
  split
  · exact ⟨rfl, fun kind => by cases kind <;> rfl⟩
  · exact .refl t

theorem addVariables_sameHead (isTyped : Bool) (t : TokenTree) (n : Node) :
    SameHead t (addVariables isTyped t n) := by
  refine .foldl (fun t declarator => ?_) t _
  split
  · split
    · exact ⟨rfl, fun kind => by cases kind <;> rfl⟩
    · exact .refl t
  · exact .refl t

theorem addClassMember_face (isTyped : Bool) (e : EntityToken) (n : Node) :
    (addClassMember isTyped e n).face = e.face := by
  unfold addClassMember addMethod addField
  split
  all_goals (repeat' split) <;> rfl

theorem addInterfaceMember_face (isTyped : Bool) (e : EntityToken) (n : Node) :
    (addInterfaceMember isTyped e n).face = e.face := by
  unfold addInterfaceMember
  split
  all_goals (repeat' split) <;> rfl

theorem addEntity_gains (s : Setting) (kind : EntityKind)
    {addMember : Bool → EntityToken → Node → EntityToken}
    (keeps : ∀ b e n, (addMember b e n).face = e.face) (t : TokenTree) (n : Node) :
    Gains t (addEntity s kind addMember t n) [] ((n.child? "name").map (fun name =>
      Shown.mk kind (Name.qualify name.text s.space separator s.position)
        (some name.span))).toList := by
  unfold addEntity
  split
  · next unnamed => rw [unnamed]; exact .refl t
  · next name named =>
    rw [named]
    refine .addEntity t kind ?_
    exact foldl_keeps EntityToken.face (keeps s.isTyped) _ _

theorem own_gains (s : Setting) (t : TokenTree) (n : Node) {above : List Node}
    (around : s.space = spaceOf above) :
    Gains t (own s t n) (opened? (above, n)).toList (shown? s.position (above, n)).toList := by
  have closed (other : spaceName? n = none) : opened? (above, n) = none := by
    rw [opened?, other, Option.bind_none]
  have bare (other : entityKind? n.kind = none) : shown? s.position (above, n) = none := by
    rw [shown?, other, Option.bind_none]
  have declares {kind : EntityKind} (entity : entityKind? n.kind = some kind) :
      shown? s.position (above, n) = (n.child? "name").map (fun name =>
        ⟨kind, Name.qualify name.text s.space separator s.position, some name.span⟩) := by
    rw [shown?, entity, Option.bind_some, around]
  unfold own
  split
  case h_1 kind =>
    rw [closed (by simp [spaceName?, kind]), bare (by simp [entityKind?, kind])]
    exact .of_sameHead (addImport_sameHead t n)
  case h_2 kind | h_3 kind =>
    rw [bare (by simp [entityKind?, kind])]
    split
    · next unnamed =>
      rw [closed (by simp [spaceName?, unnamed])]
      exact .refl t
    · next name named =>
      have opened : opened? (above, n) = some (innerSpace (spaceOf above) name) := by
        rw [opened?, spaceOf_of_space (by simp [kind]) named]
        simp [spaceName?, kind, named]
      rw [opened, around]
      exact .setFirst t _
  case h_4 kind | h_5 kind | h_6 kind =>
    rw [closed (by simp [spaceName?, kind]), declares (by rw [kind]; rfl)]
    exact addEntity_gains s .class addClassMember_face t n
  case h_7 kind =>
    rw [closed (by simp [spaceName?, kind]), declares (by rw [kind]; rfl)]
    exact addEntity_gains s .interface addInterfaceMember_face t n
  case h_8 kind =>
    rw [closed (by simp [spaceName?, kind]), bare (by simp [entityKind?, kind])]
    exact .of_sameHead (addFunction_sameHead s.isTyped t n)
  case h_9 kind | h_10 kind =>
    rw [closed (by simp [spaceName?, kind]), bare (by simp [entityKind?, kind])]
    exact .of_sameHead (addVariables_sameHead s.isTyped t n)
  case h_11 =>
    have noSpace : spaceName? n = none := if_neg (by rintro (same | same) <;> contradiction)
    have noEntity : entityKind? n.kind = none := by
      unfold entityKind?
      split <;> simp_all
    rw [closed noSpace, bare noEntity]
    exact .refl t

theorem inside_space (s : Setting) {n : Node} {above : List Node} (around : s.space = spaceOf above)
    (goesOn : entered n ≠ []) : (inside s n).space = spaceOf (above ++ [n]) := by
  unfold entered at goesOn
  unfold inside
  split
  case h_1 kind => rw [spaceOf_of_other (by simp [spaceName?, kind])]; exact around
  case h_2 kind | h_3 kind =>
    rw [kind] at goesOn
    cases named : n.child? "name" with
    | none => simp [named] at goesOn
    | some name => rw [spaceOf_of_space (by simp [kind]) named, around]; rfl
  case h_4 =>
    rw [spaceOf_of_other (if_neg (by rintro (same | same) <;> contradiction))]
    exact around

theorem visit_gains (s : Setting) (t : TokenTree) (n : Node) {above : List Node}
    (around : s.space = spaceOf above) :
    Gains t (visit s t n) ((descent.reached above n).filterMap opened?)
      ((descent.reached above n).filterMap (shown? s.position)) := by
  have position : (inside s n).position = s.position := by
    unfold inside
    split <;> rfl
  have inner : Gains (own s t n) ((entered n).foldl (visit (inside s n)) (own s t n))
      ((entered n).flatMap (fun c => (descent.reached (above ++ [n]) c).filterMap opened?))
      ((entered n).flatMap (fun c =>
        (descent.reached (above ++ [n]) c).filterMap (shown? s.position))) := by
    refine .foldl (fun c member t => ?_) _
    have := sizeOf_of_mem_entered member
    rw [← position]
    exact visit_gains (inside s n) t c (inside_space s around (List.ne_nil_of_mem member))
  rw [visit_eq, Descent.filterMap_reached, Descent.filterMap_reached]
  exact (own_gains s t n around).trans inner
termination_by sizeOf n

/-- The entities of a file, each with the namespaces around it. -/
def shownIn (position : NamespacePosition) (file : List Node) : List Shown :=
  file.flatMap (fun n => (descent.reached [] n).filterMap (shown? position))

def openedIn (file : List Node) : List String :=
  file.flatMap (fun n => (descent.reached [] n).filterMap opened?)

end Script

/-! ## PHP -/

namespace Php

/-- The walk goes through blocks, those of namespaces too. -/
def entered (n : Node) : List Node :=
  match n.kind with
  | "namespace_definition" => if (n.child? "body").isSome then n.children else []
  | "compound_statement" => n.children
  | _ => []

theorem sizeOf_of_mem_entered {n c : Node} (member : c ∈ entered n) : sizeOf c < sizeOf n := by
  unfold entered at member
  split at member
  · split at member
    · exact Node.sizeOf_of_mem_children member
    · cases member
  · exact Node.sizeOf_of_mem_children member
  · cases member

def descent : Descent := ⟨entered, sizeOf_of_mem_entered⟩

def isSpace (n : Node) : Bool := n.kind == "namespace_definition"

def isOpenSpace (n : Node) : Bool := isSpace n && (n.child? "body").isNone

def spaceName? (n : Node) : Option String :=
  (n.child? "name").map (fun name => dropSlashes name.text)

/-- The namespace around a statement in a file: that of the block around it, or else the one
begun last before it without a block. -/
def spaceOf (before above : List Node) : Option String :=
  match above.find? isSpace with
  | some block => spaceName? block
  | none => (before.filter isOpenSpace).getLast?.bind spaceName?

/-- The entity that a statement declares. -/
def shown? (position : NamespacePosition) (before : List Node) (at_ : List Node × Node) :
    Option Shown :=
  (entityKind? at_.2.kind).bind (fun kind => (at_.2.child? "name").map (fun name =>
    ⟨kind, Name.qualify name.text (spaceOf before at_.1) separator position, some name.span⟩))

/-- The namespace that a statement opens. -/
def opened? (at_ : List Node × Node) : Option String :=
  if isSpace at_.2 then spaceName? at_.2 else none

structure Passes (w w' : Walk) (spaces : List String) (shown : List Shown) : Prop where
  space : w'.space = w.space
  gains : Gains w.tree w'.tree spaces shown

/-- What a statement that is no namespace does by itself. -/
def own (position : NamespacePosition) (w : Walk) (n : Node) : Walk :=
  match n.kind with
  | "namespace_use_declaration" => { w with tree := addUse w.tree n }
  | "declare_statement" => { w with tree := addDeclare w.tree n }
  | "class_declaration" => addEntity position w .class n
  | "interface_declaration" => addEntity position w .interface n
  | "trait_declaration" => addEntity position w .trait n
  | "function_definition" => { w with tree := w.tree.addFunction (callable w.tree n true) }
  | "expression_statement" => { w with tree := addAssignment w.tree n }
  | _ => w

theorem visit_of_other (position : NamespacePosition) (w : Walk) {n : Node}
    (other : isSpace n = false) :
    visit position w n = visitAll position (own position w n) (entered n) := by
  obtain ⟨kind, isNamed, isExtra, field, start, stop, tail, children⟩ := n
  unfold visit own entered
  dsimp only
  split <;> simp_all [visitAll, isSpace]

theorem visit_of_space (position : NamespacePosition) (w : Walk) {n : Node}
    (space : isSpace n = true) :
    visit position w n = if (n.child? "body").isSome then
      { visitAll position (enterSpace w n) n.children with space := w.space }
      else enterSpace w n := by
  obtain ⟨kind, isNamed, isExtra, field, start, stop, tail, children⟩ := n
  obtain rfl : kind = "namespace_definition" := by simpa [isSpace] using space
  rw [visit]

theorem own_passes (position : NamespacePosition) (w : Walk) (n : Node) {before above : List Node}
    (around : w.space = spaceOf before above) (other : isSpace n = false) :
    Passes w (own position w n) (opened? (above, n)).toList
      (shown? position before (above, n)).toList := by
  have closed : opened? (above, n) = none := by rw [opened?, other]; rfl
  have bare (other : entityKind? n.kind = none) : shown? position before (above, n) = none := by
    rw [shown?, other, Option.bind_none]
  have keeps {t : TokenTree} (plain : entityKind? n.kind = none) (same : SameHead w.tree t) :
      Passes w { w with tree := t } (opened? (above, n)).toList
        (shown? position before (above, n)).toList := by
    rw [closed, bare plain]
    exact ⟨rfl, .of_sameHead same⟩
  have adds {kind : EntityKind} (entity : entityKind? n.kind = some kind) :
      Passes w (addEntity position w kind n) (opened? (above, n)).toList
        (shown? position before (above, n)).toList := by
    rw [closed, shown?, entity, Option.bind_some, ← around]
    exact ⟨space_addEntity position w kind n, addEntity_gains position w kind n⟩
  unfold own
  split
  case h_1 kind => exact keeps (by rw [kind]; rfl) (addUse_sameHead w.tree n)
  case h_2 kind => exact keeps (by rw [kind]; rfl) (addDeclare_sameHead w.tree n)
  case h_3 kind | h_4 kind | h_5 kind => exact adds (by rw [kind]; rfl)
  case h_6 kind => exact keeps (by rw [kind]; rfl) (addFunction_sameHead w.tree _)
  case h_7 kind => exact keeps (by rw [kind]; rfl) (addAssignment_sameHead w.tree n)
  case h_8 => exact keeps (by unfold entityKind?; split <;> simp_all) (.refl w.tree)

/-- The statement and those in it begin no namespace. -/
def BeginsNone (above : List Node) (n : Node) : Prop :=
  ∀ x ∈ descent.reached above n, isSpace x.2 = false

theorem visitAll_passes {position : NamespacePosition} {ns : List Node}
    {spaces : Node → List String} {shown : Node → List Shown} {space : Option String}
    (step : ∀ n ∈ ns, ∀ w : Walk, w.space = space →
      Passes w (visit position w n) (spaces n) (shown n)) (w : Walk) (around : w.space = space) :
    Passes w (visitAll position w ns) (ns.flatMap spaces) (ns.flatMap shown) := by
  induction ns generalizing w with
  | nil => exact ⟨rfl, .refl w.tree⟩
  | cons n ns ih =>
    rw [List.forall_mem_cons] at step
    have here := step.1 w around
    have later := ih step.2 (visit position w n) (here.space.trans around)
    rw [visitAll]
    exact ⟨later.space.trans here.space, here.gains.trans later.gains⟩

section

variable {before above : List Node} {n : Node}

theorem spaceOf_of_block (space : isSpace n = true) : spaceOf before [n] = spaceName? n := by
  rw [spaceOf, List.find?_cons_of_pos space]

theorem spaceOf_of_other (other : isSpace n = false) :
    spaceOf before (above ++ [n]) = spaceOf before above := by
  have same : (above ++ [n]).find? isSpace = above.find? isSpace := by
    rw [List.find?_append, List.find?_cons_of_neg (by rw [other]; exact Bool.false_ne_true),
      List.find?_nil, Option.or_none]
  rw [spaceOf, same, spaceOf]

theorem spaceOf_concat (before : List Node) (n : Node) :
    spaceOf (before ++ [n]) [] = if isOpenSpace n then spaceName? n else spaceOf before [] := by
  rw [spaceOf, List.find?_nil, List.filter_append]
  cases opens : isOpenSpace n with
  | true => simp [opens]
  | false => simp [opens, spaceOf]

theorem BeginsNone.self (none : BeginsNone above n) : isSpace n = false := by
  apply none (above, n)
  rw [Descent.reached_eq]
  exact List.mem_cons_self

theorem BeginsNone.inner (none : BeginsNone above n) {c : Node} (member : c ∈ entered n) :
    BeginsNone (above ++ [n]) c := by
  intro x there
  apply none x
  rw [Descent.reached_eq]
  exact List.mem_cons_of_mem _ (List.mem_flatMap.2 ⟨c, member, there⟩)

end

theorem visit_passes (position : NamespacePosition) (n : Node) {before above : List Node}
    (none : BeginsNone above n) (w : Walk) (around : w.space = spaceOf before above) :
    Passes w (visit position w n) ((descent.reached above n).filterMap opened?)
      ((descent.reached above n).filterMap (shown? position before)) := by
  have other := none.self
  have first := own_passes position w n around other
  have inner := visitAll_passes
    (fun c (member : c ∈ entered n) (w : Walk)
        (around : w.space = spaceOf before (above ++ [n])) =>
      have := sizeOf_of_mem_entered member
      visit_passes position c (none.inner member) w around)
    (own position w n) (by rw [first.space, around, spaceOf_of_other other])
  rw [visit_of_other position w other, Descent.filterMap_reached, Descent.filterMap_reached]
  exact ⟨inner.space.trans first.space, first.gains.trans inner.gains⟩
termination_by sizeOf n

/-! The statements of a file -/

/-- The walk over a file meets namespaces only among the statements of the file itself. -/
def SpacesAtFileLevel (file : List Node) : Prop :=
  ∀ n ∈ file, ∀ c ∈ entered n, BeginsNone [n] c

instance (file : List Node) : Decidable (SpacesAtFileLevel file) := by
  delta SpacesAtFileLevel BeginsNone
  infer_instance

/-- The entities of a file, each with the namespace around it. -/
def shownIn (position : NamespacePosition) (file : List Node) : List Shown :=
  (withBefore [] file).flatMap (fun (before, n) =>
    (descent.reached [] n).filterMap (shown? position before))

def openedIn (file : List Node) : List String :=
  file.flatMap (fun n => (descent.reached [] n).filterMap opened?)

/-- A statement of a file. A namespace without a block is in effect behind it; what stands in a
block has the namespace of the block, which ends with it. -/
theorem visit_gains (position : NamespacePosition) (w : Walk) {n : Node} {before : List Node}
    (flat : ∀ c ∈ entered n, BeginsNone [n] c) (around : w.space = spaceOf before []) :
    (visit position w n).space = spaceOf (before ++ [n]) [] ∧
      Gains w.tree (visit position w n).tree ((descent.reached [] n).filterMap opened?)
        ((descent.reached [] n).filterMap (shown? position before)) := by
  rw [spaceOf_concat]
  cases space : isSpace n with
  | false =>
    have none : BeginsNone [] n := by
      intro x there
      rw [Descent.reached_eq] at there
      rcases List.mem_cons.1 there with rfl | deeper
      · exact space
      · obtain ⟨c, member, there⟩ := List.mem_flatMap.1 deeper
        exact flat c member x there
    have passes := visit_passes position n none w around
    have closed : isOpenSpace n = false := by rw [isOpenSpace, space, Bool.false_and]
    rw [if_neg (by rw [closed]; exact Bool.false_ne_true)]
    exact ⟨passes.space.trans around, passes.gains⟩
  | true =>
    have kind : n.kind = "namespace_definition" := by simpa [isSpace] using space
    have opened : opened? ([], n) = spaceName? n := if_pos space
    have bare : shown? position before ([], n) = none := by
      rw [shown?, kind]
      rfl
    have first : Gains w.tree (enterSpace w n).tree (spaceName? n).toList [] := enterSpace_gains w n
    have within : (enterSpace w n).space = spaceOf before [n] := (spaceOf_of_block space).symm
    have all := visitAll_passes
      (fun c member (w : Walk) (around : w.space = spaceOf before [n]) =>
        visit_passes position c (flat c member) w around) (enterSpace w n) within
    rw [visit_of_space position w space, Descent.filterMap_reached, Descent.filterMap_reached,
      opened, bare]
    cases block : n.child? "body" with
    | some body =>
      have goesOn : entered n = n.children := by simp [entered, kind, block]
      rw [goesOn] at all
      have closed : isOpenSpace n = false := by simp [isOpenSpace, block]
      rw [closed]
      exact ⟨around, first.trans (goesOn ▸ all.gains)⟩
    | none =>
      have stops : entered n = [] := by simp [entered, kind, block]
      have opens : isOpenSpace n = true := by simp [isOpenSpace, block, space]
      rw [opens]
      refine ⟨rfl, ?_⟩
      have nothing : descent.inner n = [] := stops
      rw [nothing]
      simpa using first

theorem visitAll_gains (position : NamespacePosition) {file : List Node}
    (flat : SpacesAtFileLevel file) :
    (visitAll position {} file).space = spaceOf file [] ∧
      Gains .empty (visitAll position {} file).tree (openedIn file) (shownIn position file) := by
  have one_more (ns : List Node) (n : Node) (w : Walk) :
      visitAll position w (ns ++ [n]) = visit position (visitAll position w ns) n := by
    induction ns generalizing w with
    | nil => rfl
    | cons m ns ih => rw [List.cons_append, visitAll, ih, visitAll]
  induction file using List.reverseRecOn with
  | nil => exact ⟨rfl, .refl .empty⟩
  | append_singleton file n ih =>
    obtain ⟨around, gains⟩ := ih (fun m member => flat m (List.mem_append_left _ member))
    obtain ⟨space, more⟩ := visit_gains position (visitAll position {} file)
      (flat n (List.mem_append_right _ (List.mem_singleton_self n))) around
    rw [one_more, openedIn, List.flatMap_append, shownIn, withBefore_concat, List.flatMap_append,
      List.flatMap_singleton, List.flatMap_singleton]
    exact ⟨space, gains.trans more⟩

end Php

/-! ## Both walks -/

/-- The outline of a file lists of its entities of each kind the first of each name, named with
the namespaces around them, and has the first namespace that is not empty. In PHP that holds of
files in which no namespace stands inside of another statement. -/
theorem entities_show_spaces (position : NamespacePosition) :
    (∀ root : Node, Php.SpacesAtFileLevel root.named →
      let t := (Php.visitAll position {} root.named).tree
      (∀ kind, t.faces kind = firsts Prod.fst (facesOf kind (Php.shownIn position root.named))) ∧
        t.space = (Php.openedIn root.named).find? (· ≠ "")) ∧
    ∀ (root : Node) (isTyped : Bool),
      let start := if Script.isStrict root then TokenTree.empty.setStrict true else .empty
      let t := root.named.foldl (Script.visit { isTyped, position }) start
      (∀ kind, t.faces kind = firsts Prod.fst (facesOf kind (Script.shownIn position root.named))) ∧
        t.space = (Script.openedIn root.named).find? (· ≠ "") := by
  constructor
  · intro root flat t
    have gains := (Php.visitAll_gains position flat).2
    exact ⟨gains.faces_eq (fun kind => by cases kind <;> rfl), gains.space⟩
  · intro root isTyped start t
    have bare : SameHead .empty start := by
      unfold start
      split
      · exact Php.setStrict_sameHead .empty true
      · exact .refl .empty
    have gains : Gains start t (Script.openedIn root.named) (Script.shownIn position root.named) :=
      .foldl (fun n _ t => Script.visit_gains { isTyped, position } t n rfl) start
    refine ⟨gains.faces_eq (fun kind => ?_), ?_⟩
    · rw [bare.entities]
      cases kind <;> rfl
    · rw [gains.space, bare.space]
      rfl

/-- Namespaces of both forms: what stands behind the block is in the one without a block again. -/
def mixedSpaces : String :=
  "<?php namespace Lib; class A {} namespace App { class B {} } class C {}"

theorem entities_show_spaces_mixedSpaces : ∃ root ∈ Grammar.Php.read? mixedSpaces.toList,
    Php.SpacesAtFileLevel root.named ∧
      ((Php.visitAll .full {} root.named).tree.faces .class).map Prod.fst =
        ["Lib\\A", "App\\B", "Lib\\C"] ∧
      (Php.visitAll .full {} root.named).tree.faces .class =
        firsts Prod.fst (facesOf .class (Php.shownIn .full root.named)) := by
  have checked : ∃ root ∈ Grammar.Php.read? mixedSpaces.toList, Php.SpacesAtFileLevel root.named ∧
      ((Php.visitAll .full {} root.named).tree.faces .class).map Prod.fst =
        ["Lib\\A", "App\\B", "Lib\\C"] := by decide +kernel
  obtain ⟨root, read, flat, names⟩ := checked
  exact ⟨root, read, flat, names, ((entities_show_spaces .full).1 root flat).1 .class⟩

end CodeOutline.Analysis
