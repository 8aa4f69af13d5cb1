import CodeOutline.Proofs.Php.Statements
import CodeOutline.Proofs.Text.Pieces

/-!
Class constants in the values of an outline. A class is shown by its last part when some import
before the statement makes a name known that is the same as this part; whether it is the class that
was imported is not looked at.
-/

set_option autoImplicit false

namespace CodeOutline.Analysis.Php

open Syntax (Node)

/-! ## Classes by their names -/

/-- The name of a class as it is written, without backslashes in front. -/
def classOf (scope : Node) : String := dropSlashes scope.text

/-- The last part of a class name. -/
def lastOf (scope : Node) : String :=
  ((Text.splitAt '\\' (classOf scope)).getLast?).getD (classOf scope)

/-- The import makes the name known: as its alias, as a whole, or as its last part. -/
def makesKnown (name : String) (i : ImportToken) : Bool :=
  i.localName == some name || i.name == name ||
    (i.name.toList.reverse.takeWhile (fun c => c != '\\' && c != '.')).reverse == name.toList

theorem isImported_eq (t : TokenTree) (name : String) :
    t.isImported name = t.imports.any (makesKnown name) := rfl

/-- The name of a class where some imports are in effect. -/
def shownClass (imports : List ImportToken) (scope : Node) : String :=
  if imports.any (makesKnown (lastOf scope)) then lastOf scope else classOf scope

theorem constantAccess_eq {t : TokenTree} {n scope constant : Node}
    (parts : n.named = [scope, constant]) :
    constantAccess t n = shownClass t.imports scope ++ "::" ++ constant.text := by
  rw [constantAccess, parts]
  dsimp only
  rw [isImported_eq]
  rfl

/-! ## Accesses in values -/

/-- The elements of an array. -/
def elementsOf (n : Node) : List Node :=
  n.named.filter (fun e => e.kind == "array_element_initializer")

/-- What is shown of a node in an array so many levels deep shows the other node as a part. -/
inductive Shows : Nat → Node → Node → Prop
  | self {depth : Nat} {n : Node} : Shows depth n n
  | left {depth : Nat} {n left right x : Node} : n.kind = "binary_expression" →
      n.child? "left" = some left → n.child? "right" = some right → Shows depth left x →
      Shows depth n x
  | right {depth : Nat} {n left right x : Node} : n.kind = "binary_expression" →
      n.child? "left" = some left → n.child? "right" = some right → Shows depth right x →
      Shows depth n x
  | inner {depth : Nat} {n inner x : Node} {others : List Node} :
      n.kind = "parenthesized_expression" → n.named = inner :: others → Shows depth inner x →
      Shows depth n x
  | element {n element c x : Node} : n.kind = "array_creation_expression" →
      element ∈ (elementsOf n).take shownItems → element.named.length ≤ 2 → c ∈ element.named →
      Shows 1 c x → Shows 0 n x

variable {t : TokenTree} {depth : Nat} {n x left right inner : Node} {others : List Node}

def renderElement (t : TokenTree) (element : Node) : String :=
  match element.named with
  | [key, value] => renderValue t 1 key ++ ": " ++ renderValue t 1 value
  | [value] => renderValue t 1 value
  | _ => element.text

theorem renderValue_binary (kind : n.kind = "binary_expression")
    (ofLeft : n.child? "left" = some left) (ofRight : n.child? "right" = some right) :
    renderValue t depth n =
      renderValue t depth left ++ " " ++ operator n ++ " " ++ renderValue t depth right := by
  rw [renderValue, kind]
  split
  case h_6 =>
    split
    · next l r hl hr =>
      rw [ofLeft] at hl
      rw [ofRight] at hr
      cases hl
      cases hr
      rfl
    · next absent => exact (absent _ _ ofLeft ofRight).elim
  all_goals contradiction

theorem renderValue_parenthesized (kind : n.kind = "parenthesized_expression")
    (parts : n.named = inner :: others) :
    renderValue t depth n = "(" ++ renderValue t depth inner ++ ")" := by
  rw [renderValue, kind]
  split
  case h_7 =>
    split
    · next first rest named =>
      obtain ⟨rfl, rfl⟩ := List.cons.inj (parts.symm.trans named)
      rfl
    · next empty =>
      rw [parts] at empty
      cases empty
  all_goals contradiction

theorem renderValue_elements (kind : n.kind = "array_creation_expression") :
    renderValue t 0 n = "[" ++ ", ".intercalate (((elementsOf n).take shownItems).map
      (renderElement t) ++ (if shownItems < (elementsOf n).length then [".."] else [])) ++ "]" := by
  have own : (n.named.attach.filter (fun e => e.1.kind == "array_element_initializer")).map
      Subtype.val = elementsOf n := by
    have back : n.named.attach.map Subtype.val = n.named := List.attach_map_subtype_val _
    rw [elementsOf]
    conv_rhs => rw [← back, List.filter_map]
    rfl
  rw [renderValue, kind, ← own, ← List.map_take, List.map_map, List.length_map]
  refine congrArg (fun items => "[" ++ ", ".intercalate (items ++ _) ++ "]")
    (List.map_congr_left (fun e _ => ?_))
  obtain ⟨element, inside⟩ := e
  rw [Function.comp_apply, renderElement]
  dsimp only
  split <;> simp_all

theorem infix_renderElement {element c : Node} (few : element.named.length ≤ 2)
    (member : c ∈ element.named) :
    (renderValue t 1 c).toList <:+: (renderElement t element).toList := by
  unfold renderElement
  split
  · next key value parts =>
    rw [parts] at member
    rw [String.append_assoc, String.toList_append, String.toList_append]
    rcases List.mem_cons.1 member with rfl | later
    · exact (List.prefix_append _ _).isInfix
    · obtain rfl := List.mem_singleton.1 later
      exact ((List.suffix_append _ _).trans (List.suffix_append _ _)).isInfix
  · next value parts =>
    rw [parts] at member
    obtain rfl := List.mem_singleton.1 member
    exact List.infix_refl _
  · next several single =>
    match parts : element.named with
    | [] => rw [parts] at member; cases member
    | [value] => exact absurd parts (single value)
    | [key, value] => exact absurd parts (several key value)
    | _ :: _ :: _ :: _ => simp [parts] at few

theorem renderValue_access (kind : n.kind = "class_constant_access_expression") :
    renderValue t depth n = constantAccess t n := by
  rw [renderValue, kind]
  rfl

theorem infix_renderValue (shows_ : Shows depth n x) :
    ∃ depth', (renderValue t depth' x).toList <:+: (renderValue t depth n).toList := by
  induction shows_ with
  | self => exact ⟨_, List.infix_refl _⟩
  | left kind left right _ ih =>
    obtain ⟨depth', inside⟩ := ih
    refine ⟨depth', inside.trans ?_⟩
    rw [renderValue_binary kind left right, String.append_assoc, String.append_assoc,
      String.append_assoc, String.toList_append]
    exact (List.prefix_append _ _).isInfix
  | right kind left right _ ih =>
    obtain ⟨depth', inside⟩ := ih
    refine ⟨depth', inside.trans ?_⟩
    rw [renderValue_binary kind left right, String.toList_append]
    exact (List.suffix_append _ _).isInfix
  | inner kind parts _ ih =>
    obtain ⟨depth', inside⟩ := ih
    refine ⟨depth', inside.trans ?_⟩
    rw [renderValue_parenthesized kind parts, String.toList_append, String.toList_append]
    exact List.infix_append ..
  | @element n element c x kind among few member _ ih =>
    obtain ⟨depth', inside⟩ := ih
    refine ⟨depth', inside.trans (.trans (infix_renderElement few member) ?_)⟩
    rw [renderValue_elements kind, String.toList_append, String.toList_append,
      String.toList_intercalate]
    refine List.IsInfix.trans (Text.infix_intercalate _ ?_) (List.infix_append ..)
    exact List.mem_map_of_mem (List.mem_append_left _ (List.mem_map_of_mem among))

/-! ## Accesses of documents -/

def importsClass (n clause : Node) : Bool :=
  !(n.children ++ clause.children).any (fun c => c.kind == "function" || c.kind == "const")

def classImportsIn (n : Node) : List ImportToken :=
  ((clauses n).filter (importsClass n)).filterMap (import? (fore? n))

/-- Some statement imports the class itself under its last part. -/
def isImportedBy (ns : List Node) (scope : Node) : Bool :=
  (ns.flatMap classImportsIn).any (fun i =>
    i.name == classOf scope && i.localName.getD (lastOf scope) == lastOf scope)

/-- An access keeps its meaning: the class is shown as a whole, or by the last part under which it
is imported. -/
def KeepsMeaning (before : List Node) (scope : Node) : Prop :=
  shownClass (importsOf before) scope = classOf scope ∨
    (shownClass (importsOf before) scope = lastOf scope ∧ isImportedBy before scope = true)

theorem keepsMeaning_iff {before : List Node} {scope : Node} :
    KeepsMeaning before scope ↔ classOf scope = lastOf scope ∨
      (importsOf before).any (makesKnown (lastOf scope)) = false ∨
      isImportedBy before scope = true := by
  unfold KeepsMeaning shownClass
  cases known : (importsOf before).any (makesKnown (lastOf scope)) with
  | false =>
    rw [if_neg Bool.false_ne_true]
    exact iff_of_true (.inl rfl) (.inr (.inl rfl))
  | true =>
    rw [if_pos rfl]
    constructor
    · rintro (same | ⟨-, own⟩)
      · exact .inl same.symm
      · exact .inr (.inr own)
    · rintro (same | none | own)
      · exact .inl same.symm
      · cases none
      · exact .inr ⟨rfl, own⟩

/-- An access stands in a value with its class as the imports show it. That keeps its meaning just
when the class has one part only, when no import makes its last part known, or when the class itself
is imported under that. With a comment inside, the access stands there as it is written. -/
def Stands (before : List Node) (access : Node) (s : String) : Prop :=
  match access.named with
  | [scope, constant] =>
    (shownClass (importsOf before) scope ++ "::" ++ constant.text).toList <:+: s.toList ∧
      (KeepsMeaning before scope ↔ classOf scope = lastOf scope ∨
        (importsOf before).any (makesKnown (lastOf scope)) = false ∨
        isImportedBy before scope = true)
  | _ => access.text.toList <:+: s.toList

theorem stands_of_shows {before : List Node} {access : Node}
    (imports : t.imports = importsOf before) (part : Shows depth n access)
    (kind : access.kind = "class_constant_access_expression") :
    Stands before access (renderValue t depth n) := by
  obtain ⟨depth', inside⟩ := infix_renderValue (t := t) part
  rw [renderValue_access kind] at inside
  unfold Stands
  split
  · next scope constant parts =>
    rw [constantAccess_eq parts, imports] at inside
    exact ⟨inside, keepsMeaning_iff⟩
  · next several =>
    unfold constantAccess at inside
    split at inside
    · next scope constant parts => exact absurd parts (several scope constant)
    · exact inside

/-- Every value in an outline is that of a node in a statement, and every class constant that is a
shown part of this node stands in the value, as the imports of the statements before show it. -/
theorem constant_accesses_of_document {text : String} {settings : LanguageSettings}
    (shown : tree? text settings = some t) :
    ∃ root, Grammar.Php.read? text.toList = some root ∧ ∀ v ∈ valued t, ∀ s, v.value = some s →
      ∃ before statement x t', (before, statement) ∈ withBefore [] (statements root.named) ∧
        statement.Has x ∧ t'.imports = importsOf before ∧ s = renderValue t' 0 x ∧
        ∀ access, Shows 0 x access → access.kind = "class_constant_access_expression" →
          Stands before access s := by
  obtain ⟨root, read, made⟩ := made_of_tree? shown
  refine ⟨root, read, fun v member s value => ?_⟩
  obtain ⟨before, statement, t', there, imports, shows_⟩ := made.valued v member
  obtain ⟨x, has, rfl⟩ := shows_ s value
  exact ⟨before, statement, x, t', there, has, imports, rfl, fun _ => stands_of_shows imports⟩

/-- Two namespaces with a class of the same name, of which one is imported. -/
def foreignText : String := "<?php\nuse A\\Foo;\n$x = B\\Foo::K;"

theorem constant_accesses_of_foreignText : ∃ t, tree? foreignText {} = some t ∧
    ∃ root, Grammar.Php.read? foreignText.toList = some root ∧
      ∀ v ∈ valued t, ∀ s, v.value = some s →
      ∃ before statement x t', (before, statement) ∈ withBefore [] (statements root.named) ∧
        statement.Has x ∧ t'.imports = importsOf before ∧ s = renderValue t' 0 x ∧
        ∀ access, Shows 0 x access → access.kind = "class_constant_access_expression" →
          Stands before access s := by
  have reads : (tree? foreignText {}).isSome = true := by decide +kernel
  obtain ⟨t, shown⟩ := Option.isSome_iff_exists.1 reads
  exact ⟨t, shown, constant_accesses_of_document shown⟩

/-- The class that is not imported is shown by its last part. -/
theorem constant_access_loses_meaning : ∃ t, tree? foreignText {} = some t ∧
    t.vars.map (·.value) = [some "Foo::K"] ∧
    ∃ root, Grammar.Php.read? foreignText.toList = some root ∧
      ∃ before statement scope, (before, statement) ∈ withBefore [] (statements root.named) ∧
        statement.Has scope ∧ classOf scope = "B\\Foo" ∧ ¬ KeepsMeaning before scope := by
  have found : (tree? foreignText {}).any (fun t => t.vars.map (·.value) == [some "Foo::K"] &&
      (Grammar.Php.read? foreignText.toList).any (fun root =>
        (withBefore [] (statements root.named)).any (fun made =>
          (made.2.deep 3).any (fun scope => classOf scope == "B\\Foo" &&
            lastOf scope == "Foo" && (importsOf made.1).any (makesKnown "Foo") &&
            !isImportedBy made.1 scope)))) = true := by decide +kernel
  obtain ⟨t, shown, found⟩ := (Option.any_eq_true _ _).1 found
  obtain ⟨values, found⟩ := Bool.and_eq_true_iff.1 found
  obtain ⟨root, read, found⟩ := (Option.any_eq_true _ _).1 found
  obtain ⟨⟨before, statement⟩, there, found⟩ := List.any_eq_true.1 found
  obtain ⟨scope, deep, own⟩ := List.any_eq_true.1 found
  simp only [Bool.and_eq_true, beq_iff_eq, Bool.not_eq_true'] at own
  obtain ⟨⟨⟨whole, last⟩, known⟩, foreign⟩ := own
  refine ⟨t, shown, beq_iff_eq.1 values, root, read, before, statement, scope, there,
    Node.has_of_mem_deep deep, whole, fun keeps => ?_⟩
  rcases keepsMeaning_iff.1 keeps with same | unknown | imported
  · rw [whole, last] at same
    exact absurd same (by decide)
  · rw [last, known] at unknown
    cases unknown
  · rw [foreign] at imported
    cases imported

end CodeOutline.Analysis.Php
