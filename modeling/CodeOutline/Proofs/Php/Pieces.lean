import Mathlib
import CodeOutline.Proofs.Php.Names
import CodeOutline.Proofs.Syntax.Judging

/-!
What the rules of PHP take where a text varies: names, paths, and texts that are known to be
read as a type or as an expression.
-/

set_option autoImplicit false

namespace CodeOutline.Grammar.Php

open Syntax
open Grammar (Leaves Stops blanks depthLimit leaves_of_judge nil_mem_blanks stays_of_judge
  stops_of_judge)

variable {c : Char} {w cs rest : List Char} {n : Nat}

def isOpening (c : Char) : Bool :=
  !(Scan.blank c || isWideBlank c) && !(['/', '#', '?'].contains c)

theorem isOpening_of_isNameStart (start : isNameStart c = true) : isOpening c = true := by
  have signs : ∀ d ∈ [' ', '\t', '\n', '\r', '/', '#', '?'], isNameStart d = false := by
    simp only [List.forall_mem_cons, List.not_mem_nil, false_imp_iff, implies_true, and_true]
    decide
  have codes : ∀ n ∈ [11, 12, 0xA0, 0x200B, 0x2060, 0xFEFF],
      isNameStart (Char.ofNat n) = false := by
    decide
  cases opening : isOpening c with
  | true => rfl
  | false =>
    have among : c ∈ [' ', '\t', '\n', '\r', '/', '#', '?'] ∨
        c.toNat ∈ [11, 12, 0xA0, 0x200B, 0x2060, 0xFEFF] := by
      simp [isOpening, Scan.blank, isWideBlank] at opening ⊢
      grind
    rcases among with sign | code
    · rw [signs c sign] at start
      cases start
    · have other := codes c.toNat code
      rw [Char.ofNat_toNat, start] at other
      cases other

def Opens (cs : List Char) : Prop :=
  ∃ c rest, cs = c :: rest ∧ (isOpening c = true ∨ c = '?' ∧ ∃ d ds, rest = d :: ds ∧ d ≠ '>')

theorem opens_cons (opening : isOpening c = true) (cs : List Char) : Opens (c :: cs) :=
  ⟨c, cs, rfl, .inl opening⟩

theorem opens_word (start : isNameStart c = true) (cs : List Char) : Opens (c :: cs) :=
  opens_cons (isOpening_of_isNameStart start) cs

theorem Opens.append (opens : Opens cs) (rest : List Char) : Opens (cs ++ rest) := by
  obtain ⟨c, cs, rfl, opening | ⟨rfl, d, ds, rfl, other⟩⟩ := opens
  · exact opens_cons opening _
  · exact ⟨'?', _, rfl, .inr ⟨rfl, d, _, rfl, other⟩⟩

theorem Opens.between_eq_none (opens : Opens cs) : between cs = none := by
  obtain ⟨c, cs, rfl, opens⟩ := opens
  have solid : (Scan.blank c || isWideBlank c) = false ∧ c ≠ '/' ∧ c ≠ '#' := by
    rcases opens with opening | ⟨rfl, -⟩
    · simp only [isOpening, Bool.and_eq_true, Bool.not_eq_true', List.contains_eq_mem,
        decide_eq_false_iff_not, List.mem_cons, List.not_mem_nil, not_or] at opening
      exact ⟨opening.1, opening.2.1, opening.2.2.1⟩
    · decide
  have line : lineComment (c :: cs) = none := by
    unfold lineComment
    split <;> simp_all
  have block : Scan.blockComment (c :: cs) = none := by
    simp [Scan.blockComment, Scan.seq, Scan.text, Text.dropStart?, Ne.symm solid.2.1]
  have inter : interlude (c :: cs) = none := by
    unfold interlude
    split
    · next same =>
      obtain ⟨rfl, rfl⟩ := List.cons.inj same
      rcases opens with opening | ⟨-, d, ds, others, other⟩
      · exact absurd opening (by decide)
      · exact absurd (List.cons.inj others).1.symm other
    · rfl
  simp [between, solid.1, line, block, inter]

theorem gap_of_opens {gap : List Char} (blank : gap ∈ blanks) (opens : Opens cs) :
    grammar.gap (gap ++ cs) = gap.length := by
  have ended := opens.between_eq_none
  obtain ⟨c, cs, rfl, first⟩ := opens
  rw [blanks, List.mem_cons, List.mem_singleton] at blank
  obtain rfl | rfl := blank
  · simp [Grammar.gap, Grammar.gapTo, grammar, ended]
  · have solid : (Scan.blank c || isWideBlank c) = false := by
      rcases first with opening | ⟨rfl, -⟩
      · simp only [isOpening, Bool.and_eq_true, Bool.not_eq_true'] at opening
        exact opening.1
      · decide
    have passed : between (' ' :: c :: cs) = some (1, none) := by
      have one : (Scan.blank ' ' || isWideBlank ' ') = true := by decide
      rw [between, if_pos one, List.takeWhile_cons, List.takeWhile_cons]
      simp only [one, solid]
      rfl
    simp [Grammar.gap, Grammar.gapTo, grammar, ended, passed]

/-! Words -/

abbrev EndsWord (rest : List Char) : Prop := Scan.StopsAt isNameChar rest

section Words

variable {gap : List Char} (blank : gap ∈ blanks) (word : IsWord w)

include word

theorem takes_nameScan (ends : EndsWord rest) : nameScan.Takes w rest := by
  obtain ⟨c, cs, rfl, start⟩ := word.eq_cons
  exact (Scan.takes_one start (cs ++ rest)).seq (Scan.takes_run word.2 ends)

include blank

theorem gap_of_isWord (rest : List Char) :
    grammar.gap (gap ++ (w ++ rest)) = gap.length := by
  obtain ⟨c, cs, rfl, start⟩ := word.eq_cons
  exact gap_of_opens blank (opens_word start (cs ++ rest))

theorem leaves_name (ends : EndsWord rest) : grammar.Leaves 1 name (gap ++ (w ++ rest)) rest :=
  Grammar.leaves_token rfl (gap_of_isWord blank word rest) (takes_nameScan word ends)

theorem leaves_variable (ends : EndsWord rest) :
    grammar.Leaves 1 variableName (gap ++ '$' :: (w ++ rest)) rest := by
  have spelled := (Scan.takes_text "$" (w ++ rest)).seq (takes_nameScan word ends)
  exact Grammar.leaves_token rfl (gap_of_opens blank (opens_cons (by decide) (w ++ rest))) spelled

theorem stops_op (wanted : List String) (rest : List Char) :
    grammar.Stops 1 (op wanted) (gap ++ (w ++ rest)) := by
  refine Grammar.stops_token rfl (gap_of_isWord blank word rest) ?_
  obtain ⟨c, cs, rfl, start⟩ := word.eq_cons
  have apart : ∀ s ∈ operators, s ≠ "" ∧ (s.toList.head?.all (fun d => !isNameStart d)) = true := by
    decide
  have missing : Grammar.longestSign? operators (c :: cs ++ rest) = none := by
    refine Grammar.longestSign?_eq_none fun s member => ⟨(apart s member).1, fun head => ?_⟩
    have other := (apart s member).2
    rw [head] at other
    simp [start] at other
  rw [missing]
  rfl

end Words

/-! Names with namespaces -/

structure EndsName (rest : List Char) : Prop where
  word : EndsWord rest
  slash : rest.head? ≠ some '\\'

def slashed : Scan := Scan.seq (Scan.text "\\") nameScan

theorem slashed_eq_none (other : rest.head? ≠ some '\\') : slashed rest = none := by
  have missing : Scan.text "\\" rest = none := Scan.text_eq_none (Ne.symm other) (by decide)
  rw [slashed, Scan.seq, missing]
  rfl

theorem takes_slashed {ws : List (List Char)} (words : ∀ v ∈ ws, IsWord v)
    (ends : EndsName rest) : (Scan.many slashed).Takes (ws.flatMap ('\\' :: ·)) rest := by
  suffices enough : ∀ fuel : List Char, (ws.flatMap ('\\' :: ·)).length ≤ fuel.length →
      (Scan.manyTo slashed fuel).Takes (ws.flatMap ('\\' :: ·)) rest from
    enough _ (by simp)
  induction ws with
  | nil =>
    intro fuel _
    cases fuel with
    | nil => rfl
    | cons _ fuel => simp [Scan.Takes, Scan.manyTo, slashed_eq_none ends.slash]
  | cons w ws ih =>
    rw [List.forall_mem_cons] at words
    intro fuel enough
    cases fuel with
    | nil => simp at enough
    | cons _ fuel =>
      have follows : EndsWord (ws.flatMap ('\\' :: ·) ++ rest) := by
        cases ws with
        | nil => exact ends.word
        | cons v ws => exact Scan.stopsAt_cons (by decide) _
      have first : slashed.Takes ('\\' :: w) (ws.flatMap ('\\' :: ·) ++ rest) :=
        (Scan.takes_text "\\" (w ++ (ws.flatMap ('\\' :: ·) ++ rest))).seq
          (takes_nameScan words.1 follows)
      have others := ih words.2 fuel (by simp at enough ⊢; omega)
      rw [Scan.Takes, ← List.append_assoc] at first
      rw [Scan.Takes] at others
      simp only [Scan.Takes, List.flatMap_cons, Scan.manyTo, first]
      simp [others]
      omega

theorem endsWord_slashed (ws : List (List Char)) (ends : EndsWord rest) :
    EndsWord (ws.flatMap ('\\' :: ·) ++ rest) := by
  cases ws with
  | nil => exact ends
  | cons v ws => exact Scan.stopsAt_cons (by decide) _

theorem takes_pathScan (path : IsPath cs) (ends : EndsName rest) : pathScan.Takes cs rest := by
  obtain ⟨w, ws, word, words, rfl⟩ := path
  exact .seq (takes_nameScan word (endsWord_slashed ws ends.word)) (takes_slashed words ends)

section Names

variable {gap : List Char} (blank : gap ∈ blanks) (path : IsPath cs) (ends : EndsName rest)

include blank path ends

theorem leaves_path (kind : String) :
    grammar.Leaves 1 (.leaf kind pathScan) (gap ++ (cs ++ rest)) rest := by
  refine Grammar.leaves_token rfl ?_ (takes_pathScan path ends)
  obtain ⟨c, cs, rfl, start⟩ := path.start
  exact gap_of_opens blank (opens_word start (cs ++ rest))

theorem leaves_className : grammar.Leaves 3 className (gap ++ (cs ++ rest)) rest := by
  have opens : grammar.gap (gap ++ (cs ++ rest)) = gap.length := by
    obtain ⟨c, cs, rfl, start⟩ := path.start
    exact gap_of_opens blank (opens_word start (cs ++ rest))
  have unslashed : Scan.seq (Scan.text "\\") pathScan (cs ++ rest) = none := by
    obtain ⟨c, cs, rfl, start⟩ := path.start
    have missing : Scan.text "\\" (c :: cs ++ rest) = none := by
      refine Scan.text_eq_none (fun head => ?_) (by decide)
      obtain rfl : '\\' = c := Option.some.inj head
      exact absurd start (by decide)
    rw [Scan.seq, missing]
    rfl
  obtain ⟨w, ws, word, words, rfl⟩ := path
  have known : Scan.many (Scan.seq (Scan.text "\\") nameScan) (ws.flatMap ('\\' :: ·) ++ rest) =
      some (ws.flatMap ('\\' :: ·)).length := takes_slashed words ends
  cases ws with
  | nil =>
    rw [List.flatMap_nil, List.append_nil] at opens unslashed ⊢
    rw [List.flatMap_nil, List.nil_append] at known
    have first : nameScan (w ++ rest) = some w.length := takes_nameScan word ends.word
    have alone : qualifiedScan (w ++ rest) = none := by
      rw [qualifiedScan, Scan.alt, unslashed]
      simp [Scan.seq, first, known]
    have fails := Grammar.stops_token (a := .leaf "qualified_name" qualifiedScan) rfl opens alone
    exact (Leaves.alt_right fails (leaves_name blank word ends.word)).mono (by omega)
  | cons v ws =>
    have first := takes_nameScan word (endsWord_slashed (v :: ws) ends.word)
    refine (Leaves.alt_left (Grammar.leaves_token rfl opens ?_)).mono (by omega)
    refine .alt_right unslashed (.seq first ?_)
    rw [Scan.Takes, known]
    rfl

end Names

end CodeOutline.Grammar.Php
