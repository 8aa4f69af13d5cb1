import CodeOutline.Proofs.Outline.Expansion
import CodeOutline.Report.Tree
import Mathlib.Tactic.MkIffOfInductiveProp

/-!
What is printed for a tree: one line for each node of its outline, or one line that says that
the tree is empty. A tree that only has what no node shows is not empty and has no node, so
nothing is printed for it.
-/

set_option autoImplicit false

namespace CodeOutline

namespace TokenTree

/-- There is nothing in the tree that a node shows. No node shows its namespace, a strict sign
that is switched off, or a data container without values. -/
@[mk_iff]
structure IsBare (t : TokenTree) : Prop where
  strict : t.strict ≠ some true
  imports : t.imports = []
  vars : t.vars = []
  functions : t.functions = []
  rules : t.rules = []
  items : t.items = []
  interfaces : t.interfaces = []
  traits : t.traits = []
  classes : t.classes = []
  media : t.media.entries = []
  nodes : t.nodes.entries = []
  data : ∀ root, t.data = some root → root.kind.isContainer = true ∧ root.children = []

theorem isEmpty_iff (t : TokenTree) :
    t.isEmpty = true ↔ t.IsBare ∧ t.strict = none ∧ t.space = none ∧ t.data = none := by
  simp only [isEmpty, OrderedMap.isEmpty, Bool.and_eq_true, Option.isNone_iff_eq_none,
    List.isEmpty_iff]
  constructor
  · rintro ⟨⟨⟨⟨⟨⟨⟨⟨⟨⟨⟨⟨strict, space⟩, imports⟩, interfaces⟩, traits⟩, classes⟩, functions⟩,
      vars⟩, rules⟩, items⟩, nodes⟩, media⟩, data⟩
    refine ⟨⟨?_, imports, vars, functions, rules, items, interfaces, traits, classes, media,
      nodes, ?_⟩, strict, space, data⟩
    · simp [strict]
    · simp [data]
  · rintro ⟨bare, strict, space, data⟩
    simp only [strict, space, data, bare.imports, bare.interfaces, bare.traits, bare.classes,
      bare.functions, bare.vars, bare.rules, bare.items, bare.nodes, bare.media, and_self]

end TokenTree

namespace Outline

section Roots

variable (m : Markers) (t : TokenTree)

private theorem headings_eq_nil_iff :
    (Section.all.filter (fun s => !s.isEmpty t)) = [] ↔
      t.imports = [] ∧ t.vars = [] ∧ t.functions = [] ∧ t.rules = [] ∧ t.items = [] := by
  simp [Section.all, Section.isEmpty, List.filter_eq_nil_iff]

private theorem entities_eq_nil_iff :
    EntityKind.all.flatMap (entityNodes m t) = [] ↔
      t.interfaces = [] ∧ t.traits = [] ∧ t.classes = [] := by
  simp [EntityKind.all, entityNodes, TokenTree.entitiesOf]

private theorem dataRoots_eq_nil_iff :
    dataRoots t = [] ↔
      ∀ root, t.data = some root → root.kind.isContainer = true ∧ root.children = [] := by
  unfold dataRoots
  cases t.data with
  | none => simp
  | some root => cases shape : root.kind.isContainer <;> simp [shape, dataNodes]

private theorem offerOpen_eq_nil_iff (offers : List (Node × Bool)) :
    offerOpen offers = [] ↔ offers = [] := by
  rcases offerOpen_cases offers with ⟨-, same⟩ | ⟨before, node, after, rfl, -, same⟩
  · rw [same, List.map_eq_nil_iff]
  · simp [same]

theorem roots_eq_nil_iff : roots m t = [] ↔ t.IsBare := by
  have unstrict : (if t.strict = some true then [(leaf "Strict: Yes" .strict none, false)] else [])
      = [] ↔ t.strict ≠ some true := by simp
  simp only [roots, offerOpen_eq_nil_iff, rootOffers, List.append_eq_nil_iff,
    List.map_eq_nil_iff, unstrict, headings_eq_nil_iff, entities_eq_nil_iff, OrderedMap.keys,
    dataRoots_eq_nil_iff, TokenTree.isBare_iff, and_assoc]

end Roots

end Outline

namespace Report

open Outline (Node Branch)

section Lines

variable (hasColors : Bool)

/-- The line of the node, at some depth below the heading of its file. -/
def IsLineOf (line : String) (n : Node) : Prop :=
  ∃ depth, 1 ≤ depth ∧ line = nodeLine hasColors depth n

mutual

theorem forall₂_branchLines {depth : Nat} (below : 1 ≤ depth) :
    (b : Branch) → List.Forall₂ (IsLineOf hasColors) (branchLines hasColors depth b) b.nodes
  | .mk _ bs => .cons ⟨depth, below, rfl⟩ (forall₂_branchesLines (Nat.le_succ_of_le below) bs)

theorem forall₂_branchesLines {depth : Nat} (below : 1 ≤ depth) :
    (bs : List Branch) →
      List.Forall₂ (IsLineOf hasColors) (branchesLines hasColors depth bs) (Branch.nodesOf bs)
  | [] => .nil
  | b :: bs =>
    List.rel_append (forall₂_branchLines below b) (forall₂_branchesLines below bs)

end

/-- The line that is printed for an empty tree. -/
def emptyLine : String := "    " ++ Style.dim.paint hasColors "(empty)"

private theorem nodeLine_behind_indent {depth : Nat} (below : 1 ≤ depth) (n : Node) :
    (nodeLine hasColors depth n).toList[4]? ∈ [some ' ', some '▸', some '▾'] := by
  obtain ⟨rest, split⟩ : ∃ rest, (nodeLine hasColors depth n).toList =
      List.replicate (2 * (depth + 1)) ' ' ++ ((sign n.collapse).toList ++ rest) := by
    simp only [nodeLine, String.toList_append, String.toList_ofList, List.append_assoc]
    exact ⟨_, rfl⟩
  rw [split]
  rcases Nat.eq_or_lt_of_le below with rfl | deeper
  · rw [List.getElem?_append_right (by simp)]
    cases n.collapse <;> simp [sign]
  · rw [List.getElem?_append_left (by simp; omega), List.getElem?_replicate, if_pos (by omega)]
    decide

private theorem emptyLine_behind_indent :
    (emptyLine hasColors).toList[4]? ∈ [some '(', some '\x1b'] := by
  cases hasColors <;> decide

theorem emptyLine_ne_of_isLineOf {line : String} {n : Node} (printed : IsLineOf hasColors line n) :
    emptyLine hasColors ≠ line := by
  obtain ⟨depth, below, rfl⟩ := printed
  intro same
  have node := nodeLine_behind_indent hasColors below n
  have none := emptyLine_behind_indent hasColors
  rw [same] at none
  simp only [List.mem_cons, List.not_mem_nil, or_false] at node none
  rcases node with node | node | node <;> simp [node] at none

end Lines

section Trees

variable (hasColors : Bool) (m : Markers) (t : TokenTree)

theorem treeLines_of_isEmpty (empty : t.isEmpty = true) :
    treeLines hasColors m t = [emptyLine hasColors] := if_pos empty

theorem forall₂_treeLines (filled : t.isEmpty = false) :
    List.Forall₂ (IsLineOf hasColors) (treeLines hasColors m t)
      (Branch.nodesOf (Outline.expand m t)) := by
  rw [treeLines, if_neg (by simp [filled])]
  exact forall₂_branchesLines hasColors (Nat.le_refl 1) _

private theorem nodesOf_eq_nil_iff (bs : List Branch) : Branch.nodesOf bs = [] ↔ bs = [] := by
  cases bs with
  | nil => simp [Branch.nodesOf]
  | cons b bs =>
    obtain ⟨n, below⟩ := b
    simp [Branch.nodesOf, Branch.nodes]

theorem treeLines_eq_nil_iff :
    treeLines hasColors m t = [] ↔ t.IsBare ∧ t.isEmpty = false := by
  cases empty : t.isEmpty with
  | true => simp [treeLines_of_isEmpty, empty]
  | false =>
    have printed := forall₂_treeLines hasColors m t empty
    rw [← List.length_eq_zero_iff, printed.length_eq, List.length_eq_zero_iff, nodesOf_eq_nil_iff,
      Outline.expand, List.map_eq_nil_iff, Outline.roots_eq_nil_iff]
    simp

theorem emptyLine_mem_treeLines_iff :
    emptyLine hasColors ∈ treeLines hasColors m t ↔ t.isEmpty = true := by
  cases empty : t.isEmpty with
  | true => simp [treeLines_of_isEmpty, empty]
  | false =>
    have marked := (forall₂_treeLines hasColors m t empty).imp
      (fun _ _ printed => And.intro (emptyLine_ne_of_isLineOf hasColors printed) printed)
    obtain ⟨apart, -⟩ := (List.forall₂_and_left _ _).1 marked
    simpa using fun printed => apart _ printed rfl

/-- Something is printed for the tree, and it is the line for an empty one exactly if the
outline has no nodes. -/
def TellsEmpty : Prop :=
  treeLines hasColors m t ≠ [] ∧
    (emptyLine hasColors ∈ treeLines hasColors m t ↔ Outline.roots m t = [])

/-- An empty tree is printed as the line that says so, every other one as its nodes. Of the trees
without nodes only the empty one is told by that line: the ones with a namespace, a strict sign
that is switched off or an empty data container leave the print blank. -/
theorem tellsEmpty_iff :
    (t.isEmpty = true ∧ treeLines hasColors m t = [emptyLine hasColors] ∨
      t.isEmpty = false ∧ List.Forall₂ (IsLineOf hasColors) (treeLines hasColors m t)
        (Branch.nodesOf (Outline.expand m t))) ∧
    (emptyLine hasColors ∈ treeLines hasColors m t ↔ t.isEmpty = true) ∧
    (treeLines hasColors m t = [] ↔ t.IsBare ∧ t.isEmpty = false) ∧
    (TellsEmpty hasColors m t ↔
      (t.IsBare → t.strict = none ∧ t.space = none ∧ t.data = none)) := by
  refine ⟨?_, emptyLine_mem_treeLines_iff hasColors m t, treeLines_eq_nil_iff hasColors m t, ?_⟩
  · cases empty : t.isEmpty with
    | true => exact .inl ⟨rfl, treeLines_of_isEmpty hasColors m t empty⟩
    | false => exact .inr ⟨rfl, forall₂_treeLines hasColors m t empty⟩
  · have nothing := t.isEmpty_iff
    rw [TellsEmpty, Ne, treeLines_eq_nil_iff, emptyLine_mem_treeLines_iff, Outline.roots_eq_nil_iff,
      ← Bool.not_eq_true]
    tauto

/-- A tree with nothing but a namespace is printed as nothing. -/
theorem not_tellsEmpty :
    ¬ ∀ (hasColors : Bool) (m : Markers) (t : TokenTree), TellsEmpty hasColors m t :=
  fun all => (all false ⟨"®", "Ⓐ"⟩ { space := some "App" }).1 rfl

end Trees

end Report

end CodeOutline
