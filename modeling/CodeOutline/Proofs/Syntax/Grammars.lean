import CodeOutline.Grammar.CSharp
import CodeOutline.Grammar.Cpp
import CodeOutline.Grammar.Css
import CodeOutline.Grammar.Java
import CodeOutline.Grammar.Json
import CodeOutline.Grammar.Php
import CodeOutline.Grammar.Python
import CodeOutline.Grammar.Script
import CodeOutline.Proofs.Syntax.Places

/-!
The nodes of all documents that are read start and stop in their texts. Most grammars make no moves;
where text outside of code or the beginning of a line is passed over, the cursor is only carried on.
-/

set_option autoImplicit false

namespace CodeOutline.Grammar

open Syntax Syntax.Grammar

variable {text : List Char} {root : Node}

/-! ## Grammars without moves -/

theorem Json.isOf_of_read? (read : Json.read? text = some root) : root.IsOf text :=
  isOf_of_still (fun name => by cases name; rfl) rfl read

theorem Css.isOf_of_read? (read : Css.read? text = some root) : root.IsOf text :=
  isOf_of_still (fun name => by cases name <;> rfl) rfl read

theorem CSharp.isOf_of_read? (read : CSharp.read? text = some root) : root.IsOf text :=
  isOf_of_still (fun name => by cases name <;> rfl) rfl read

theorem Cpp.isOf_of_read? {isPlus : Bool} (read : Cpp.read? isPlus text = some root) :
    root.IsOf text :=
  isOf_of_still (fun name => by cases isPlus <;> cases name <;> rfl) rfl read

theorem Script.isOf_of_read? {d : Script.Dialect} (read : Script.read? d text = some root) :
    root.IsOf text := by
  obtain ⟨isTyped, hasMarkup⟩ := d
  refine isOf_of_still (fun name => ?_) rfl read
  cases isTyped <;> cases hasMarkup <;> cases name <;> rfl

theorem Java.moves_binaryRule (level : Nat) : (Java.binaryRule level).moves = [] := by
  cases level with
  | zero => rfl
  | succ level =>
    rw [Java.binaryRule]
    split
    · rfl
    · dsimp only
      split <;> rfl

theorem Java.moves_rule (name : Java.Name) : (Java.grammar.rule name).moves = [] := by
  cases name with
  | binary level => exact Java.moves_binaryRule level
  | _ => rfl

theorem Java.isOf_of_read? (read : Java.read? text = some root) : root.IsOf text :=
  isOf_of_still Java.moves_rule rfl read

/-! ## Text in front of code -/

theorem Php.moves_binaryRule (level : Nat) : (Php.binaryRule level).moves = [] := by
  have operators : Php.levels.all (·.moves.isEmpty) = true := rfl
  unfold Php.binaryRule
  dsimp only
  split
  · rfl
  · split
    · rfl
    · split
      · next operator found =>
        have still : operator.moves = [] :=
          List.isEmpty_iff.1 (List.all_eq_true.1 operators operator (List.mem_of_getElem? found))
        show [] ++ (operator.moves ++ []) = []
        rw [still, List.append_nil, List.append_nil]
      · rfl

theorem Php.moves_rule (name : Php.Name) : (Php.grammar.rule name).moves = [] := by
  cases name with
  | binary level => exact Php.moves_binaryRule level
  | _ => rfl

theorem Php.isOf_of_read? (read : Php.read? text = some root) : root.IsOf text := by
  refine Syntax.Grammar.isOf_of_read? (fun name => ?_) ?_ read
  · rw [Php.moves_rule]
    exact List.forall_mem_nil _
  · refine List.forall_mem_cons.2 ⟨?_, List.forall_mem_nil _⟩
    rintro before after c here ⟨⟩
    exact here.skip _

/-! ## Blocks by indentation -/

namespace Python

theorem staysIn_nextInBlock : ∀ f ∈ nextInBlock.moves, StaysIn text f := by
  refine List.forall_mem_singleton.2 (fun before after c here moved => ?_)
  split at moved
  · split at moved
    · cases moved
      exact here.skip _
    · cases moved
  · cases moved

theorem staysIn_opensBlock : ∀ f ∈ opensBlock.moves, StaysIn text f := by
  refine List.forall_mem_singleton.2 (fun before after c here moved => ?_)
  split at moved
  · next count indent _ =>
    split at moved
    · cases moved
      have behind := here.skip count
      exact behind
    · cases moved
  · cases moved

theorem staysIn_closesBlock : ∀ f ∈ closesBlock.moves, StaysIn text f := by
  refine List.forall_mem_singleton.2 ?_
  rintro before after c here ⟨⟩
  exact here

theorem staysIn_remainder : ∀ f ∈ remainder.moves, StaysIn text f := by
  refine List.forall_mem_singleton.2 (fun before after c here moved => ?_)
  split at moved
  · cases moved
    exact here.skip _
  · cases moved

theorem mem_moves_rules (name : Name) : ∀ f ∈ (rules name).moves,
    f ∈ nextInBlock.moves ++ opensBlock.moves ++ closesBlock.moves := by
  have block : (rules .block).moves =
      opensBlock.moves ++ nextInBlock.moves ++ closesBlock.moves := rfl
  have line : (rules .line).moves =
      (List.replicate 9 nextInBlock.moves).flatten ++ (rules .block).moves := rfl
  have blocks : ∀ f ∈ (rules .block).moves,
      f ∈ nextInBlock.moves ++ opensBlock.moves ++ closesBlock.moves := by
    intro f member
    simp only [block, List.mem_append] at member ⊢
    exact member.imp_left Or.symm
  cases name with
  | block => exact blocks
  | line =>
    rw [line]
    refine List.forall_mem_append.2 ⟨fun f member => ?_, blocks⟩
    obtain ⟨moves, among, inside⟩ := List.mem_flatten.1 member
    rw [(List.mem_replicate.1 among).2] at inside
    exact List.mem_append_left _ (List.mem_append_left _ inside)
  | _ => exact List.forall_mem_nil _

theorem staysIn_rules (name : Name) : ∀ f ∈ (rules name).moves, StaysIn text f := by
  have each : ∀ f ∈ nextInBlock.moves ++ opensBlock.moves ++ closesBlock.moves, StaysIn text f := by
    simp only [List.forall_mem_append]
    exact ⟨⟨staysIn_nextInBlock, staysIn_opensBlock⟩, staysIn_closesBlock⟩
  exact fun f member => each f (mem_moves_rules name f member)

theorem isOf_of_read? (read : read? text = some root) : root.IsOf text := by
  refine Syntax.Grammar.isOf_of_read? staysIn_rules ?_ read
  exact List.forall_mem_append.2 ⟨staysIn_nextInBlock, staysIn_remainder⟩

theorem goesOn_nextInBlock : ∀ f ∈ nextInBlock.moves, GoesOn f := by
  refine List.forall_mem_singleton.2 (fun before after c moved => ?_)
  split at moved
  · split at moved
    · cases moved
      exact offset_le_skip before _
    · cases moved
  · cases moved

theorem goesOn_rules (name : Name) : ∀ f ∈ (rules name).moves, GoesOn f := by
  have opens : ∀ f ∈ opensBlock.moves, GoesOn f := by
    refine List.forall_mem_singleton.2 (fun before after c moved => ?_)
    split at moved
    · split at moved
      · cases moved
        exact offset_le_skip before _
      · cases moved
    · cases moved
  have closes : ∀ f ∈ closesBlock.moves, GoesOn f := by
    refine List.forall_mem_singleton.2 ?_
    rintro before after c ⟨⟩
    exact Nat.le_refl _
  have each : ∀ f ∈ nextInBlock.moves ++ opensBlock.moves ++ closesBlock.moves, GoesOn f := by
    simp only [List.forall_mem_append]
    exact ⟨⟨goesOn_nextInBlock, opens⟩, closes⟩
  exact fun f member => each f (mem_moves_rules name f member)

theorem goesOn_remainder : ∀ f ∈ remainder.moves, GoesOn f := by
  refine List.forall_mem_singleton.2 (fun before after c moved => ?_)
  split at moved
  · cases moved
    exact offset_le_skip before _
  · cases moved

theorem inOrder_of_read? (read : read? text = some root) :
    InOrder root.start.offset root.children root.stop.offset := by
  refine Syntax.Grammar.inOrder_of_read? goesOn_rules ?_ read
  exact List.forall_mem_append.2 ⟨goesOn_nextInBlock, goesOn_remainder⟩

end Python

end CodeOutline.Grammar
