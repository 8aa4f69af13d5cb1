import CodeOutline.Proofs.Text.Pieces
import Mathlib.Data.List.Infix
import Mathlib.Data.List.TakeWhile

/-!
What trimming takes away: blanks at both ends, and nothing behind the first or in front of the last
character that is not blank. Collapsing also makes one space of each run of blanks inside.
-/

set_option autoImplicit false

namespace CodeOutline.Text

variable {c : Char} {xs ys : List Char}

theorem trimRight_leads (cs : List Char) : trimRight cs <+: cs := by
  have back : cs.reverse.dropWhile isBlank <:+ cs.reverse := List.dropWhile_suffix _
  rw [← List.reverse_prefix, List.reverse_reverse] at back
  exact back

theorem exists_trimChars_append (cs : List Char) :
    ∃ behind, cs = cs.takeWhile isBlank ++ trimChars cs ++ behind := by
  obtain ⟨behind, whole⟩ := trimRight_leads (trimLeft cs)
  refine ⟨behind, ?_⟩
  rw [List.append_assoc, trimChars, whole, trimLeft, List.takeWhile_append_dropWhile]

theorem solid_of_head?_dropWhile {cs : List Char}
    (first : (cs.dropWhile isBlank).head? = some c) : isBlank c = false := by
  have fits := List.head?_dropWhile_not isBlank cs
  rw [first] at fits
  exact Bool.eq_false_iff.2 (by simpa using fits)

theorem solid_getLast?_trimRight (cs : List Char) :
    ∀ c ∈ (trimRight cs).getLast?, isBlank c = false := by
  intro c last
  rw [trimRight, List.getLast?_reverse] at last
  exact solid_of_head?_dropWhile last

theorem solid_head?_trimChars (cs : List Char) :
    ∀ c ∈ (trimChars cs).head?, isBlank c = false := by
  intro c first
  obtain ⟨rest, begins⟩ := List.head?_eq_some_iff.1 first
  obtain ⟨more, whole⟩ := trimRight_leads (trimLeft cs)
  have front : trimLeft cs = c :: (rest ++ more) := by
    rw [← whole, ← trimChars, begins, List.cons_append]
  have head : (cs.dropWhile isBlank).head? = some c := by
    rw [← trimLeft, front, List.head?_cons]
  exact solid_of_head?_dropWhile head

theorem trimChars_inside (cs : List Char) : trimChars cs <:+: cs := by
  have front : trimLeft cs <:+ cs := List.dropWhile_suffix _
  exact (trimRight_leads (trimLeft cs)).isInfix.trans front.isInfix

theorem trimRight_cons (c : Char) (xs : List Char) :
    trimRight (c :: xs) = if trimRight xs = [] ∧ isBlank c = true then [] else c :: trimRight xs := by
  have ends : trimRight xs = [] ↔ (xs.reverse.dropWhile isBlank).isEmpty = true := by
    rw [trimRight, List.reverse_eq_nil_iff, List.isEmpty_iff]
  rw [trimRight, List.reverse_cons, List.dropWhile_append]
  by_cases empty : trimRight xs = []
  · rw [if_pos (ends.1 empty), empty]
    cases blank : isBlank c <;> simp [blank]
  · rw [if_neg (fun none => empty (ends.2 none)), if_neg (fun both => empty both.1),
      List.reverse_append]
    rfl

theorem trimRight_concat (solid : isBlank c = false) (xs : List Char) :
    trimRight (xs ++ [c]) = xs ++ [c] := by
  rw [trimRight, List.reverse_concat, List.dropWhile_cons_of_neg (by simp [solid]),
    List.reverse_cons, List.reverse_reverse]

theorem trimLeft_append_cons (solid : isBlank c = false) (xs ys : List Char) :
    trimLeft (xs ++ c :: ys) = trimLeft xs ++ c :: ys := by
  rw [trimLeft, List.dropWhile_append, trimLeft]
  split
  · next none =>
    rw [List.isEmpty_iff.1 none, List.dropWhile_cons_of_neg (by simp [solid]), List.nil_append]
  · rfl

theorem trimRight_append_blanks (xs : List Char) (blank : ∀ c ∈ ys, isBlank c = true) :
    trimRight (xs ++ ys) = trimRight xs := by
  have turned : ∀ c ∈ ys.reverse, isBlank c = true := by
    intro c member
    exact blank c (List.mem_reverse.1 member)
  rw [trimRight, List.reverse_append, List.dropWhile_append_of_pos turned, trimRight]

theorem trimChars_append_blanks (xs : List Char) (blank : ∀ c ∈ ys, isBlank c = true) :
    trimChars (xs ++ ys) = trimChars xs := by
  rw [trimChars, trimLeft, List.dropWhile_append, trimChars, trimLeft]
  cases rest : xs.dropWhile isBlank with
  | nil =>
    have all : ys.dropWhile isBlank = [] := List.dropWhile_eq_nil_iff.2 blank
    rw [List.isEmpty_nil, if_pos rfl, all]
  | cons c rest =>
    rw [List.isEmpty_cons, if_neg Bool.false_ne_true]
    exact trimRight_append_blanks _ blank

theorem blanks_append_trimChars (blank : ∀ c ∈ xs, isBlank c = true) (ys : List Char) :
    trimChars (xs ++ ys) = trimChars ys := by
  rw [trimChars, trimLeft, List.dropWhile_append_of_pos blank, trimChars, trimLeft]

theorem trimChars_of_ends (first : ∀ c ∈ xs.head?, isBlank c = false)
    (last : ∀ c ∈ xs.getLast?, isBlank c = false) : trimChars xs = xs := by
  have solid (cs : List Char) (first : ∀ c ∈ cs.head?, isBlank c = false) :
      cs.dropWhile isBlank = cs := by
    cases cs with
    | nil => rfl
    | cons c cs => exact List.dropWhile_cons_of_neg (by simp [first c rfl])
  have back : xs.reverse.dropWhile isBlank = xs.reverse :=
    solid xs.reverse (by rwa [List.head?_reverse])
  rw [trimChars, trimLeft, solid xs first, trimRight, back, List.reverse_reverse]

theorem trimChars_of_solid (solid : ∀ c ∈ xs, isBlank c = false) : trimChars xs = xs :=
  trimChars_of_ends (fun c head => solid c (List.mem_of_mem_head? head))
    (fun c last => solid c (List.mem_of_getLast? last))

theorem trimChars_of_trim {s : String} (trimmed : trim s = s) : trimChars s.toList = s.toList := by
  simpa [trim, ← String.toList_inj] using trimmed

theorem trim_between {front back : String} (front_trim : trim front = front) (begins : front ≠ "")
    (back_trim : trim back = back) (ends : back ≠ "") (mark : String) :
    trim (front ++ mark ++ back) = front ++ mark ++ back := by
  have first : ∀ c ∈ (front ++ mark ++ back).toList.head?, isBlank c = false := by
    have solid := solid_head?_trimChars front.toList
    rw [trimChars_of_trim front_trim] at solid
    simpa [begins] using solid
  have last : ∀ c ∈ (front ++ mark ++ back).toList.getLast?, isBlank c = false := by
    have solid := solid_getLast?_trimRight (trimLeft back.toList)
    rw [← trimChars, trimChars_of_trim back_trim] at solid
    simpa [ends] using solid
  rw [trim, trimChars_of_ends first last, String.ofList_toList]

theorem exists_trimChars_cons (solid : isBlank c = false) (cs : List Char) :
    ∃ rest, trimChars (c :: cs) = c :: rest := by
  have left : trimLeft (c :: cs) = c :: cs := List.dropWhile_cons_of_neg (by simp [solid])
  have filled : trimRight (c :: cs) ≠ [] := by
    intro nothing
    have all := List.dropWhile_eq_nil_iff.1 (List.reverse_eq_nil_iff.1 nothing)
    rw [all c (by simp)] at solid
    cases solid
  obtain ⟨d, rest, begins⟩ := List.exists_cons_of_ne_nil filled
  obtain ⟨more, whole⟩ := trimRight_leads (c :: cs)
  rw [begins, List.cons_append] at whole
  obtain ⟨rfl, -⟩ := List.cons.inj whole
  exact ⟨rest, by rw [trimChars, left, begins]⟩

theorem infix_dropWhile_iff {p : Char → Bool} {d : Char} {needle : List Char} (solid : p d = false)
    (cs : List Char) : d :: needle <:+: cs.dropWhile p ↔ d :: needle <:+: cs := by
  induction cs with
  | nil => exact Iff.rfl
  | cons c cs ih =>
    cases drops : p c with
    | false => rw [List.dropWhile_cons_of_neg (by simp [drops])]
    | true =>
      rw [List.dropWhile_cons_of_pos drops, ih, List.infix_cons_iff]
      refine (or_iff_right (fun leads => ?_)).symm
      obtain ⟨rfl, -⟩ := List.cons_prefix_cons.1 leads
      rw [solid] at drops
      cases drops

theorem infix_trimChars_iff {needle : List Char} (filled : needle ≠ [])
    (solid : ∀ c ∈ needle, isBlank c = false) (cs : List Char) :
    needle <:+: trimChars cs ↔ needle <:+: cs := by
  have front {needle : List Char} (filled : needle ≠ []) (solid : ∀ c ∈ needle, isBlank c = false)
      (cs : List Char) : needle <:+: cs.dropWhile isBlank ↔ needle <:+: cs := by
    obtain ⟨d, needle, rfl⟩ := List.exists_cons_of_ne_nil filled
    exact infix_dropWhile_iff (solid d List.mem_cons_self) cs
  have turned : ∀ c ∈ needle.reverse, isBlank c = false := by
    intro c member
    exact solid c (List.mem_reverse.1 member)
  rw [trimChars, trimRight, ← List.reverse_infix, List.reverse_reverse,
    front (by simpa using filled) turned, List.reverse_infix, trimLeft, front filled solid]

/-! ## Blanks inside -/

/-- Each run of blanks made one space. -/
def squeeze : List Char → List Char
  | [] => []
  | c :: cs =>
    if isBlank c then if cs.head?.any isBlank then squeeze cs else ' ' :: squeeze cs
    else c :: squeeze cs

theorem squeeze_cons (solid : isBlank c = false) (xs : List Char) :
    squeeze (c :: xs) = c :: squeeze xs := by
  rw [squeeze, if_neg (by simp [solid])]

theorem squeeze_append_cons (solid : isBlank c = false) (xs ys : List Char) :
    squeeze (xs ++ c :: ys) = squeeze xs ++ c :: squeeze ys := by
  induction xs with
  | nil => exact squeeze_cons solid ys
  | cons d xs ih =>
    have next : (xs ++ c :: ys).head?.any isBlank = xs.head?.any isBlank := by
      cases xs with
      | nil => simpa using solid
      | cons => rfl
    rw [List.cons_append, squeeze, squeeze, next, ih]
    split
    · split <;> rfl
    · rfl

theorem mem_of_mem_squeeze {d : Char} (solid : isBlank d = false) (member : d ∈ squeeze xs) :
    d ∈ xs := by
  induction xs with
  | nil => exact member
  | cons c xs ih =>
    rw [squeeze] at member
    split at member
    · split at member
      · exact List.mem_cons_of_mem c (ih member)
      · rcases List.mem_cons.1 member with rfl | later
        · cases solid
        · exact List.mem_cons_of_mem c (ih later)
    · exact List.mem_cons.2 ((List.mem_cons.1 member).imp_right ih)

theorem trimLeft_squeeze_cons (blank : isBlank c = true) (xs : List Char) :
    trimLeft (squeeze (c :: xs)) = trimLeft (squeeze xs) := by
  rw [squeeze, if_pos blank]
  split
  · rfl
  · exact List.dropWhile_cons_of_pos (by decide)

theorem trimLeft_squeeze (front : xs.head?.any isBlank = false) :
    trimLeft (squeeze xs) = squeeze xs := by
  cases xs with
  | nil => rfl
  | cons c xs =>
    have solid : isBlank c = false := front
    rw [squeeze_cons solid]
    exact List.dropWhile_cons_of_neg (by simp [solid])

theorem squeeze_eq_cons (front : xs.head?.any isBlank = true) :
    squeeze xs = ' ' :: trimLeft (squeeze xs) := by
  induction xs with
  | nil => cases front
  | cons c xs ih =>
    have blank : isBlank c = true := front
    rw [trimLeft_squeeze_cons blank, squeeze, if_pos blank]
    cases next : xs.head?.any isBlank with
    | true => exact ih next
    | false => rw [if_neg Bool.false_ne_true, trimLeft_squeeze next]

theorem intercalate_letter (separator word : List Char) (words : List (List Char)) :
    separator.intercalate ((c :: word) :: words) = c :: separator.intercalate (word :: words) := by
  cases words with
  | nil => rw [List.intercalate_singleton, List.intercalate_singleton]
  | cons next words => rw [List.intercalate_cons_cons, List.intercalate_cons_cons]; rfl

/-- The words with one space between two of them are the text without blanks at its ends, with
each other run of blanks made one space. -/
theorem intercalate_wordChars (cs : List Char) :
    [' '].intercalate (wordChars cs) = trimChars (squeeze cs) := by
  induction cs with
  | nil => rfl
  | cons c cs ih =>
    cases blank : isBlank c with
    | true =>
      rw [trimChars, trimLeft_squeeze_cons blank, ← trimChars, ← ih, wordChars,
        splitChars_cons_of_sep blank]
      rfl
    | false =>
      obtain ⟨piece, rest, split⟩ := List.exists_cons_of_ne_nil (splitChars_ne_nil isBlank cs)
      have words : wordChars (c :: cs) = (c :: piece) :: rest.filter (fun w => !w.isEmpty) := by
        rw [wordChars, splitChars_cons_of_other blank split]
        rfl
      have whole : trimChars (squeeze (c :: cs)) = c :: trimRight (squeeze cs) := by
        rw [trimChars, trimLeft_squeeze (by exact blank), squeeze_cons blank, trimRight_cons,
          if_neg (by simp [blank])]
      rw [words, whole, intercalate_letter]
      rw [wordChars, split, trimChars] at ih
      congr 1
      cases cs with
      | nil =>
        cases split
        rfl
      | cons d cs =>
        cases next : isBlank d with
        | false =>
          obtain ⟨piece', rest', split'⟩ := List.exists_cons_of_ne_nil (splitChars_ne_nil isBlank cs)
          rw [splitChars_cons_of_other next split'] at split
          cases split
          rw [trimLeft_squeeze (by exact next)] at ih
          exact ih
        | true =>
          rw [splitChars_cons_of_sep next] at split
          cases split
          rw [squeeze_eq_cons (by exact next), trimRight_cons, ← ih,
            List.filter_cons_of_neg (by simp)]
          have filled : ∀ w ∈ (splitChars isBlank cs).filter (fun w => !w.isEmpty), w ≠ [] := by
            simp
          cases words : (splitChars isBlank cs).filter (fun w => !w.isEmpty) with
          | nil => rfl
          | cons w ws =>
            obtain ⟨e, letters, rfl⟩ := List.exists_cons_of_ne_nil (filled w (by simp [words]))
            rw [if_neg (by simp), List.intercalate_cons_cons]
            rfl

theorem toList_collapse (cs : List Char) :
    (collapse (String.ofList cs)).toList = trimChars (squeeze cs) := by
  have chars : (words (String.ofList cs)).map String.toList = wordChars cs := by
    rw [words, String.toList_ofList, List.map_map]
    exact (List.map_congr_left (fun w _ => String.toList_ofList)).trans (List.map_id _)
  rw [collapse, String.toList_intercalate, chars]
  exact intercalate_wordChars cs

end CodeOutline.Text
