import CodeOutline.Grammar.Php
import CodeOutline.Proofs.Syntax.Nodes

/-!
The names of declarations in a PHP document that can be read: those of entities are words, and
those of namespaces are words with single backslashes between them.
-/

set_option autoImplicit false

namespace CodeOutline.Grammar.Php

open Syntax

/-- The shape of a declaration's name, by the kind of its node. -/
def nameShape : String → Option Scan
  | "class_declaration" | "interface_declaration" | "trait_declaration" => some nameScan
  | "namespace_definition" => some pathScan
  | _ => none

/-- The kinds of nodes whose name has a shape. -/
def named : List String :=
  ["class_declaration", "interface_declaration", "trait_declaration", "namespace_definition"]

theorem free_of_not_mem_named {kind : String} (other : kind ∉ named) (children : List Node) :
    NameDemand nameShape kind children := by
  intro scan shaped
  unfold nameShape at shaped
  split at shaped
  · exact absurd (by decide) other
  · exact absurd (by decide) other
  · exact absurd (by decide) other
  · exact absurd (by decide) other
  · cases shaped

private theorem binary_roleless (level : Nat) : (binaryRule level).isRoleless = true := by
  unfold binaryRule
  dsimp only
  split
  · rfl
  · split
    · rfl
    · split <;> rfl

theorem rules_roleless (name : Name) : (grammar.rule name).isRoleless = true := by
  cases name with
  | binary level => exact binary_roleless level
  | _ => rfl

theorem meets_node {kind : String} {scan : Scan} {a : Rule Name}
    (shaped : nameShape kind = some scan) (inner : a.avoids named = true)
    (names : a.Fills grammar "name" (scan.Makes ·.chars)) :
    (Rule.node kind a).Meets grammar (NameDemand nameShape) := by
  refine ⟨Rule.meets_of_avoids (fun _ => free_of_not_mem_named) inner, ?_⟩
  intro fuel c xs stop run sound scan' shaped' x member role
  obtain rfl := Option.some.inj (shaped.symm.trans shaped')
  have there : x ∈ xs := (Grammar.mem_splitExtras xs).1 (.inr member)
  exact Grammar.of_fills rules_roleless names (Grammar.derives_of_run run) x there
    (sound x there).tidy role

theorem avoids_meets {a : Rule Name} (avoids : a.avoids named = true) :
    a.Meets grammar (NameDemand nameShape) :=
  Rule.meets_of_avoids (fun _ => free_of_not_mem_named) avoids

private theorem all_avoid_meet {rules : List (Rule Name)}
    (avoid : rules.all (·.avoids named) = true) :
    ∀ a ∈ rules, a.Meets grammar (NameDemand nameShape) :=
  fun a member => avoids_meets (List.all_eq_true.1 avoid a member)

private theorem name_fills {kind : String} {scan : Scan} :
    (Rule.field "name" (.leaf kind scan)).Fills grammar "name" (scan.Makes ·.chars) :=
  Grammar.fills_leaf (fun _ _ made => made)

private theorem body_fills {a : Rule Name} (free : a.isRoleless = true) {q : Node → Prop} :
    (Rule.field "body" a).Fills grammar "name" q := .field (by decide) (.free free)

private theorem statement_meets : statementRule.Meets grammar (NameDemand nameShape) := by
  apply Rule.meets_choice
  refine List.forall_mem_cons.2 ⟨avoids_meets (by decide), List.forall_mem_cons.2 ⟨?space,
    List.forall_mem_cons.2 ⟨avoids_meets (by decide), List.forall_mem_cons.2
      ⟨avoids_meets (by decide), List.forall_mem_cons.2 ⟨?«class», List.forall_mem_cons.2
        ⟨avoids_meets (by decide), List.forall_mem_cons.2 ⟨?interface, List.forall_mem_cons.2
          ⟨?trait, all_avoid_meet (by decide)⟩⟩⟩⟩⟩⟩⟩⟩
  case space =>
    refine meets_node rfl (by decide) (.seq (.free rfl) (.alt ?plain ?block))
    case plain => exact .seq name_fills (.free rfl)
    case block => exact .seq (.alt name_fills (.free rfl)) (body_fills rfl)
  case «class» =>
    exact meets_node rfl (by decide) (.seq (.free rfl) (.seq (.free rfl) (.seq (.free rfl)
      (.seq name_fills (.seq (.free rfl) (.seq (.free rfl) (body_fills rfl)))))))
  case interface =>
    exact meets_node rfl (by decide) (.seq (.free rfl) (.seq (.free rfl) (.seq name_fills
      (.seq (.free rfl) (body_fills rfl)))))
  case trait =>
    exact meets_node rfl (by decide) (.seq (.free rfl) (.seq (.free rfl) (.seq name_fills
      (body_fills rfl))))

private theorem binary_avoids (level : Nat) : (binaryRule level).avoids named = true := by
  have operators : ∀ a ∈ levels, a.avoids named = true := by decide
  unfold binaryRule
  split
  · simp [Rule.avoids, reads, named, op, Rule.sequence, Rule.opt]
  · split
    · simp [Rule.avoids, reads, named, op]
    · split
      · next operator found =>
        have kept := operators operator (List.mem_of_getElem? found)
        simpa [Rule.avoids, reads, named] using kept
      · simp [Rule.avoids, reads, named, op]

theorem rules_meet (name : Name) : (grammar.rule name).Meets grammar (NameDemand nameShape) := by
  cases name with
  | statement => exact statement_meets
  | binary level => exact avoids_meets (binary_avoids level)
  | _ => exact avoids_meets (by decide)

theorem sound_of_read? {text : List Char} {root : Node} (read : read? text = some root) :
    ∀ n ∈ root.children, n.Sound (NameDemand nameShape) :=
  Grammar.sound_of_read? (nameDemand_nil nameShape) rules_meet (avoids_meets (by decide)) read

/-! The characters of words and paths -/

/-- A letter or underscore, and behind it only such characters and digits. -/
def IsWord : List Char → Prop
  | [] => False
  | c :: cs => isNameStart c = true ∧ ∀ d ∈ cs, isNameChar d = true

theorem isNameChar_of_isNameStart {c : Char} (start : isNameStart c = true) :
    isNameChar c = true := by
  rw [isNameChar, start, Bool.true_or]

theorem IsWord.all {cs : List Char} (word : IsWord cs) : ∀ c ∈ cs, isNameChar c = true := by
  cases cs with
  | nil => exact word.elim
  | cons d ds => exact List.forall_mem_cons.2 ⟨isNameChar_of_isNameStart word.1, word.2⟩

theorem isWord_of_makes {cs : List Char} (makes : nameScan.Makes cs) : IsWord cs := by
  obtain ⟨xs, ys, rfl, first, others⟩ := makes.seq
  obtain ⟨c, rfl, start⟩ := first.one
  exact ⟨start, others.run⟩

theorem IsWord.eq_cons {cs : List Char} (word : IsWord cs) :
    ∃ c rest, cs = c :: rest ∧ isNameStart c = true := by
  cases cs with
  | nil => exact word.elim
  | cons c rest => exact ⟨c, rest, rfl, word.1⟩

/-- Words with single backslashes between them. -/
def IsPath (cs : List Char) : Prop :=
  ∃ (w : List Char) (ws : List (List Char)), IsWord w ∧ (∀ v ∈ ws, IsWord v) ∧
    cs = w ++ ws.flatMap ('\\' :: ·)

theorem IsWord.isPath {cs : List Char} (word : IsWord cs) : IsPath cs :=
  ⟨cs, [], word, nofun, (List.append_nil cs).symm⟩

namespace IsPath

variable {cs ds : List Char} (path : IsPath cs)

include path

theorem start : ∃ c rest, cs = c :: rest ∧ isNameStart c = true := by
  obtain ⟨w, ws, word, -, rfl⟩ := path
  obtain ⟨c, cs, rfl, start⟩ := word.eq_cons
  exact ⟨c, _, rfl, start⟩

theorem all : ∀ c ∈ cs, isNameChar c = true ∨ c = '\\' := by
  obtain ⟨w, ws, word, words, rfl⟩ := path
  intro c member
  rcases List.mem_append.1 member with here | later
  · exact .inl (word.all c here)
  · obtain ⟨v, there, inside⟩ := List.mem_flatMap.1 later
    rcases List.mem_cons.1 inside with slash | right
    · exact .inr slash
    · exact .inl ((words v there).all c right)

theorem slash (word : IsWord ds) : IsPath (cs ++ '\\' :: ds) := by
  obtain ⟨w, ws, first, words, rfl⟩ := path
  refine ⟨w, ws ++ [ds], first, ?_, by simp⟩
  intro v member
  rcases List.mem_append.1 member with here | last
  · exact words v here
  · exact List.mem_singleton.1 last ▸ word

end IsPath

theorem exists_words {parts : List (List Char)}
    (each : ∀ part ∈ parts, (Scan.seq (Scan.text "\\") nameScan).Makes part) :
    ∃ ws : List (List Char), (∀ v ∈ ws, IsWord v) ∧ parts.flatten = ws.flatMap ('\\' :: ·) := by
  induction parts with
  | nil => exact ⟨[], nofun, rfl⟩
  | cons part parts ih =>
    rw [List.forall_mem_cons] at each
    obtain ⟨us, v, rfl, slash, name⟩ := each.1.seq
    obtain ⟨ws, words, same⟩ := ih each.2
    obtain rfl : us = ['\\'] := slash.text
    refine ⟨v :: ws, List.forall_mem_cons.2 ⟨isWord_of_makes name, words⟩, ?_⟩
    rw [List.flatten_cons, same]
    rfl

theorem isPath_of_makes {cs : List Char} (makes : pathScan.Makes cs) : IsPath cs := by
  obtain ⟨xs, ys, rfl, first, others⟩ := makes.seq
  obtain ⟨parts, rfl, each⟩ := others.many
  obtain ⟨ws, words, same⟩ := exists_words each
  exact ⟨xs, ws, isWord_of_makes first, words, by rw [same]⟩

theorem isNameChar_apart {c : Char} (fits : isNameChar c = true) : c ≠ '\\' ∧ c ≠ ':' := by
  constructor
  · rintro rfl
    exact absurd fits (by decide)
  · rintro rfl
    exact absurd fits (by decide)

end CodeOutline.Grammar.Php
