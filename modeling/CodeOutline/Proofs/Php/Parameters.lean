import CodeOutline.Proofs.Php.Pieces

/-!
How far the parameter lists of PHP functions are read, and what is asked of types and values for
that: each is read alone, whatever follows the sign that closes it.
-/

set_option autoImplicit false

namespace CodeOutline.Grammar.Php

open Syntax
open Grammar (Leaves Stops blanks depthLimit leaves_of_judge list nil_mem_blanks space_mem_blanks
  stays_of_judge stops_of_judge)

variable {c : Char} {w cs rest text : List Char} {n m : Nat}

theorem isNameChar_of_toLower (lower : isNameChar c.toLower = true) : isNameChar c = true := by
  unfold Char.toLower at lower
  split at lower
  · next upper =>
    have letter : c.isAlpha = true := by
      simp only [Char.isAlpha, Char.isUpper, Bool.or_eq_true, decide_eq_true_eq]
      exact .inl upper
    simp [isNameChar, isNameStart, letter]
  · exact lower

/-! Texts that are known to be read -/

/-- An expression up to a semicolon, a comma or a parenthesis. -/
def IsExpression : List Char → Prop := grammar.IsRead (reads .expression) [[';'], [','], [')']]

/-- A type up to a variable, a semicolon or a body. -/
def IsType : List Char → Prop :=
  grammar.IsRead (reads .type) [[' ', '$'], [' ', '&', '$'], [' ', '&', '.', '.', '.'],
    [' ', '.', '.', '.'], [';'], ['\n', ' ', ' ', ' ', ' ', '\x7b']]

def promotions : List String := ["public", "protected", "private", "readonly", "final"]

theorem small_of_all {words : List String}
    (all : words.all (fun s => s.toList.all (fun c => c.toLower == c && isNameChar c)) = true) :
    ∀ s ∈ words, ∀ c ∈ s.toList, c.toLower = c ∧ isNameChar c = true := by
  simpa only [List.all_eq_true, Bool.and_eq_true, beq_iff_eq] using all

/-- A type that stands before a parameter: none of the words above begins it. -/
structure IsParameterType (cs : List Char) : Prop where
  read : IsType cs
  opens : Opens cs
  plain : ∀ s ∈ promotions, (cs.takeWhile isNameChar).map Char.toLower ≠ s.toList

section ParameterType

variable {gap T : List Char} (blank : gap ∈ blanks) (type : IsParameterType T)

include blank type

theorem attributes_stay (rest : List Char) :
    grammar.Leaves 6 attributes (gap ++ (T ++ rest)) (gap ++ (T ++ rest)) := by
  have mark : grammar.Stops 1 (.sign "#[") (gap ++ (T ++ rest)) := by
    refine Grammar.stops_token rfl (gap_of_opens blank (type.opens.append rest)) ?_
    obtain ⟨c, cs, rfl, opens⟩ := type.opens
    refine Scan.text_eq_none (fun head => ?_) (by decide)
    obtain rfl : '#' = c := Option.some.inj head
    rcases opens with opening | ⟨other, -⟩
    · exact absurd opening (by decide)
    · exact absurd other (by decide)
  have none : grammar.Stops 4 (grammar.rule .attributes) (gap ++ (T ++ rest)) :=
    .node (.seq_left (.seq_left mark))
  exact .opt_stays none.call

theorem promotion_stops (rest : List Char) :
    grammar.Stops 6 promotion (gap ++ (T ++ ' ' :: rest)) := by
  have apart : ∀ s ∈ promotions, grammar.Stops 1 (.word s) (gap ++ (T ++ ' ' :: rest)) := by
    intro s member
    have lower : ∀ s ∈ promotions, ∀ c ∈ s.toList, c.toLower = c ∧ isNameChar c = true :=
      small_of_all (by decide)
    refine Grammar.stops_word (fun c inside => (lower s member c inside).1) (fun c inside => ?_)
      (gap_of_opens blank (type.opens.append _)) ?_
    · exact isNameChar_of_toLower (lower s member _ inside).2
    · have whole : (T ++ ' ' :: rest).takeWhile isNameChar = T.takeWhile isNameChar := by
        rw [List.takeWhile_append]
        split
        · next full =>
          rw [List.takeWhile_cons_of_neg (by decide), List.append_nil]
          exact ((List.takeWhile_prefix _).eq_of_length full).symm
        · rfl
      have other := type.plain s member
      rw [← whole] at other
      exact other
  simp only [promotions, List.forall_mem_cons] at apart
  obtain ⟨pub, prot, priv, readonly, final, -⟩ := apart
  exact .node (.alt (.seq_left (.alt pub (.alt prot priv))) (.alt readonly final))

end ParameterType

/-! Parameters -/

/-- What may stand between a parameter's type and its name: the signs of a reference, of a
variadic parameter, of both. -/
def signs : List (List Char) := [[], ['&'], ['.', '.', '.'], ['&', '.', '.', '.']]

structure LeavesType (n : Nat) (text rest : List Char) : Prop where
  bare : grammar.Leaves 100 attributes text text
  plain : grammar.Stops 100 promotion text
  leaves : grammar.Leaves n typed text rest

theorem LeavesType.mono (leaves : LeavesType n text rest) (more : n ≤ m) :
    LeavesType m text rest := ⟨leaves.bare, leaves.plain, leaves.leaves.mono more⟩

theorem leavesType_nil {gap sign : List Char} (blank : gap ∈ blanks) (among : sign ∈ signs)
    (rest : List Char) :
    LeavesType 100 (gap ++ (sign ++ '$' :: rest)) (gap ++ (sign ++ '$' :: rest)) := by
  simp only [blanks, signs, List.mem_cons, List.not_mem_nil, or_false] at blank among
  rcases blank with rfl | rfl <;> rcases among with rfl | rfl | rfl | rfl
  all_goals exact ⟨stays_of_judge (by cbv), stops_of_judge (by cbv), stays_of_judge (by cbv)⟩

theorem leavesType_type {gap T sign : List Char} (blank : gap ∈ blanks)
    (type : IsParameterType T) (among : sign ∈ signs) (rest : List Char) :
    LeavesType (depthLimit T.length + 102) (gap ++ (T ++ ([' '] ++ (sign ++ '$' :: rest))))
      ([' '] ++ (sign ++ '$' :: rest)) := by
  constructor
  · exact (attributes_stay blank type _).mono (by omega)
  · exact (promotion_stops blank type _).mono (by omega)
  · refine .opt (.field (.mono ?_ (Nat.le_add_right _ 100)))
    simp only [signs, List.mem_cons, List.not_mem_nil, or_false] at among
    obtain rfl | rfl | rfl | rfl := among
    · exact type.read gap blank [' ', '$'] (by simp) rest
    · exact type.read gap blank [' ', '&', '$'] (by simp) rest
    · exact type.read gap blank [' ', '.', '.', '.'] (by simp) ('$' :: rest)
    · exact type.read gap blank [' ', '&', '.', '.', '.'] (by simp) ('$' :: rest)

section Signs

variable {gap : List Char} (blank : gap ∈ blanks) (rest : List Char)

include blank

theorem leaves_reference {sign : List Char} (among : sign ∈ [[], ['&']]) :
    ∃ gap' ∈ blanks,
      grammar.Leaves 100 reference (gap ++ (sign ++ '$' :: rest)) (gap' ++ '$' :: rest) ∧
      grammar.Stops 100 (op ["..."]) (gap' ++ '$' :: rest) := by
  simp only [blanks, List.mem_cons, List.not_mem_nil, or_false] at blank among
  obtain rfl | rfl := blank <;> obtain rfl | rfl := among
  · exact ⟨[], nil_mem_blanks, stays_of_judge (by cbv), stops_of_judge (by cbv)⟩
  · exact ⟨[], nil_mem_blanks, leaves_of_judge ['&'] (by cbv), stops_of_judge (by cbv)⟩
  · exact ⟨[' '], space_mem_blanks, stays_of_judge (by cbv), stops_of_judge (by cbv)⟩
  · exact ⟨[], nil_mem_blanks, leaves_of_judge [' ', '&'] (by cbv), stops_of_judge (by cbv)⟩

theorem leaves_dots {sign : List Char} (among : sign ∈ [['.', '.', '.'], ['&', '.', '.', '.']]) :
    ∃ text, grammar.Leaves 100 reference (gap ++ (sign ++ '$' :: rest)) text ∧
      grammar.Leaves 100 (op ["..."]) text ('$' :: rest) := by
  simp only [blanks, List.mem_cons, List.not_mem_nil, or_false] at blank among
  obtain rfl | rfl := blank <;> obtain rfl | rfl := among
  · exact ⟨_, stays_of_judge (by cbv), leaves_of_judge ['.', '.', '.'] (by cbv)⟩
  · exact ⟨_, leaves_of_judge ['&'] (by cbv), leaves_of_judge ['.', '.', '.'] (by cbv)⟩
  · exact ⟨_, stays_of_judge (by cbv), leaves_of_judge [' ', '.', '.', '.'] (by cbv)⟩
  · exact ⟨_, leaves_of_judge [' ', '&'] (by cbv), leaves_of_judge ['.', '.', '.'] (by cbv)⟩

end Signs

section Parameter

variable {gap sign tail : List Char} (blank : gap ∈ blanks) (word : IsWord w)
  (ends : EndsWord tail) (typed : LeavesType n text (gap ++ (sign ++ '$' :: (w ++ tail))))

include blank word ends typed

theorem leaves_simple (among : sign ∈ [[], ['&']])
    (default : grammar.Leaves m defaultValue tail rest) :
    grammar.Leaves (max n (max m 100) + 20) parameter text rest := by
  obtain ⟨gap', follows, reference, dots⟩ := leaves_reference blank (w ++ tail) among
  have named : grammar.Leaves 2 (.field "name" variableName) _ _ :=
    .field (leaves_variable follows word ends)
  refine (Leaves.alt_right (.node (.seq_right typed.bare (.seq_left (.seq_left typed.plain))))
    (.alt_right (.node (.seq_right typed.bare (.seq_right typed.leaves
      (.seq_right reference (.seq_left dots))))) (.node (typed.bare.seq (typed.leaves.seq
        (reference.seq (named.seq default))))))).mono (by omega)

theorem leaves_variadic (among : sign ∈ [['.', '.', '.'], ['&', '.', '.', '.']]) :
    grammar.Leaves (max n 100 + 20) parameter text tail := by
  obtain ⟨text', reference, dots⟩ := leaves_dots blank (w ++ tail) among
  have named : grammar.Leaves 2 (.field "name" variableName) _ _ :=
    .field (leaves_variable (.head _) word ends)
  refine (Leaves.alt_right (.node (.seq_right typed.bare (.seq_left (.seq_left typed.plain))))
    (.alt_left (.node (typed.bare.seq (typed.leaves.seq
        (reference.seq (dots.seq named))))))).mono (by omega)

end Parameter

/-! Parameter lists -/

abbrev IsParameter : List Char → Prop := grammar.IsItem parameter

theorem gap_of_closing : ∀ c ∈ [',', ')'], ∀ cs, grammar.gap (c :: cs) = 0 := by
  intro c among cs
  refine gap_of_opens nil_mem_blanks (opens_cons ?_ cs)
  simp only [List.mem_cons, List.not_mem_nil, or_false] at among
  obtain rfl | rfl := among
  · decide
  · decide

theorem leaves_parameters {ps : List (List Char)} (each : ∀ p ∈ ps, IsParameter p)
    (rest : List Char) :
    grammar.Leaves (depthLimit (list ps).length + 220) (reads .parameters)
      ('(' :: (list ps ++ ')' :: rest)) rest := by
  have opening (text : List Char) : grammar.Leaves 1 (.sign "(") ('(' :: text) text :=
    leaves_of_judge ['('] (by cbv)
  have closing : grammar.Leaves 1 (.sign ")") (')' :: rest) rest := leaves_of_judge [')'] (by cbv)
  have stop : grammar.Leaves 3 (Rule.opt (.sign ",")) (')' :: rest) (')' :: rest) :=
    stays_of_judge (by cbv)
  have inside : grammar.Leaves (depthLimit (list ps).length + 215)
      (Rule.opt (Rule.commasEnd parameter)) (list ps ++ ')' :: rest) (')' :: rest) := by
    cases ps with
    | nil =>
      have none : grammar.Leaves 120 (Rule.opt (Rule.commasEnd parameter)) (')' :: rest)
        (')' :: rest) := stays_of_judge (by cbv)
      exact none.mono (by omega)
    | cons p ps =>
      exact ((Grammar.leaves_commas gap_of_closing each rest).seq stop).opt.mono (by omega)
  have parsed : grammar.Leaves _ (grammar.rule .parameters) ('(' :: (list ps ++ ')' :: rest)) rest :=
    .node ((opening _).seq (inside.seq closing))
  exact parsed.call.mono (by omega)

end CodeOutline.Grammar.Php
