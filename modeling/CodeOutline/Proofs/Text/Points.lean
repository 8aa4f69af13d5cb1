import CodeOutline.Proofs.Syntax.Reading
import CodeOutline.Proofs.Text.Pieces
import CodeOutline.Token.Columns
import Mathlib.Data.List.Count

/-!
Points of a text by what stands in front of them: lines count the line feeds, columns the
characters behind the last one. A place, whose column counts bytes, comes to that point. The same
for columns of a line, which is what stands between two line feeds: its number is the number of
line feeds in front of it.
-/

set_option autoImplicit false

namespace CodeOutline

open Syntax

/-- The point behind one more character. -/
def Point.next (p : Point) (c : Char) : Point :=
  if c = '\n' then ⟨p.line + 1, 0⟩ else ⟨p.line, p.column + 1⟩

namespace Text

/-- The point behind the characters at the beginning of a text. -/
def pointBehind (cs : List Char) : Point := cs.foldl Point.next ⟨0, 0⟩

theorem foldl_next (cs : List Char) (p : Point) :
    p.line ≤ (cs.foldl Point.next p).line ∧
      ((cs.foldl Point.next p).line = p.line →
        (cs.foldl Point.next p).column = p.column + cs.length) := by
  induction cs generalizing p with
  | nil => simp
  | cons c cs ih =>
    obtain ⟨later, column⟩ := ih (p.next c)
    rw [List.foldl_cons, List.length_cons]
    by_cases feed : c = '\n'
    · have next : p.next c = ⟨p.line + 1, 0⟩ := if_pos feed
      rw [next] at later column ⊢
      exact ⟨Nat.le_of_succ_le later, fun same => absurd (same ▸ later) (Nat.not_succ_le_self _)⟩
    · have next : p.next c = ⟨p.line, p.column + 1⟩ := if_neg feed
      rw [next] at later column ⊢
      exact ⟨later, fun same => (column same).trans (by rw [Nat.add_assoc, Nat.add_comm 1])⟩

private theorem eq_of_pointBehind_append {a b : List Char} (shorter : a <+: b)
    (same : pointBehind a = pointBehind b) : a = b := by
  obtain ⟨more, rfl⟩ := shorter
  obtain ⟨-, column⟩ := foldl_next more (pointBehind a)
  have whole : pointBehind (a ++ more) = more.foldl Point.next (pointBehind a) := List.foldl_append
  rw [← whole, ← same] at column
  have nothing : more.length = 0 := Nat.add_eq_left.1 (column rfl).symm
  rw [List.eq_nil_of_length_eq_zero nothing, List.append_nil]

theorem pointBehind_inj {text a b : List Char} (front : a <+: text) (front' : b <+: text)
    (same : pointBehind a = pointBehind b) : a = b := by
  rcases List.prefix_or_prefix_of_prefix front front' with shorter | shorter
  · exact eq_of_pointBehind_append shorter same
  · exact (eq_of_pointBehind_append shorter same.symm).symm

/-- The number of bytes that characters take. -/
def byteLength : List Char → Nat
  | [] => 0
  | c :: cs => c.utf8Size + byteLength cs

theorem byteLength_concat (cs : List Char) (c : Char) :
    byteLength (cs ++ [c]) = byteLength cs + c.utf8Size := by
  induction cs with
  | nil => exact Nat.add_comm _ _
  | cons d cs ih => rw [List.cons_append, byteLength, byteLength, ih, Nat.add_assoc]

theorem charsBefore_byteLength (front cs : List Char) :
    charsBefore (front ++ cs) (byteLength front) = front.length := by
  induction front with
  | nil => cases cs <;> rfl
  | cons c front ih =>
    have bytes : byteLength (c :: front) = c.utf8Size + byteLength front := rfl
    have positive := c.utf8Size_pos
    rw [List.cons_append, charsBefore, if_neg (by omega), bytes, Nat.add_sub_cancel_left, ih,
      List.length_cons]

private theorem charPoint_foldl (lines : List (List Char)) (front : List Char)
    (line : ∀ c ∈ front, (c == '\n') = false) (cs rest : List Char) (p : Place)
    (inLine : p.line = lines.length) (column : p.column = byteLength front) :
    charPoint (lines ++ splitChars (· == '\n') (front ++ (cs ++ rest)))
        (cs.foldl Place.next p).point =
      cs.foldl Point.next ⟨lines.length, front.length⟩ := by
  induction cs generalizing lines front p with
  | nil =>
    obtain ⟨more, others, first⟩ :=
      List.exists_cons_of_ne_nil (splitChars_ne_nil (· == '\n') rest)
    have pieces := splitChars_append_of_others line first
    have here : (lines ++ (front ++ more) :: others)[lines.length]? = some (front ++ more) := by
      simp
    rw [List.nil_append, pieces, List.foldl_nil, List.foldl_nil, charPoint, Place.point, inLine,
      here, column]
    simp only [charsBefore_byteLength]
  | cons c cs ih =>
    rw [List.foldl_cons, List.foldl_cons]
    by_cases feed : c = '\n'
    · have ends : (c == '\n') = true := beq_iff_eq.2 feed
      have pieces := splitChars_append_of_others line
        (splitChars_cons_of_sep (b := cs ++ rest) ends)
      have place : p.next c = ⟨p.offset + 1, p.line + 1, 0⟩ := if_pos feed
      have point : Point.next ⟨lines.length, front.length⟩ c = ⟨lines.length + 1, 0⟩ := if_pos feed
      rw [List.append_nil] at pieces
      have next := ih (lines ++ [front]) [] (by simp) (p.next c) (by simp [place, inLine])
        (by simp [place, byteLength])
      simpa [pieces, point] using next
    · have place : p.next c = ⟨p.offset + 1, p.line, p.column + c.utf8Size⟩ := if_neg feed
      have point : Point.next ⟨lines.length, front.length⟩ c =
        ⟨lines.length, front.length + 1⟩ := if_neg feed
      have line : ∀ d ∈ front ++ [c], (d == '\n') = false := by
        simpa [or_imp, forall_and, feed] using line
      have next := ih lines (front ++ [c]) line (p.next c) (by rw [place, inLine])
        (by rw [byteLength_concat, ← column, place])
      simpa [point] using next

theorem charPoint_behind (cs rest : List Char) :
    charPoint (splitChars (· == '\n') (cs ++ rest)) (Place.behind cs).point = pointBehind cs :=
  charPoint_foldl [] [] (by simp) cs rest .origin rfl rfl

theorem utf8Size_of_ascii {c : Char} (ascii : c.toNat < 128) : c.utf8Size = 1 := by
  rw [Char.utf8Size_eq_one_iff, UInt32.le_iff_toNat_le]
  exact Nat.le_of_lt_succ ascii

theorem point_behind_of_ascii {cs : List Char} (ascii : ∀ c ∈ cs, c.toNat < 128) :
    (Place.behind cs).point = pointBehind cs := by
  suffices ∀ p : Place, (cs.foldl Place.next p).point = cs.foldl Point.next p.point from
    this .origin
  induction cs with
  | nil => exact fun _ => rfl
  | cons c cs ih =>
    rw [List.forall_mem_cons] at ascii
    intro p
    have step : (p.next c).point = p.point.next c := by
      rw [Place.next, Point.next, utf8Size_of_ascii ascii.1]
      split <;> rfl
    rw [List.foldl_cons, List.foldl_cons, ih ascii.2, step]

end Text

end CodeOutline

/-! Columns of a line in bytes and in characters -/

namespace CodeOutline

/-- The first point is not behind the second one. -/
def Point.AtMost (p q : Point) : Prop :=
  p.line < q.line ∨ p.line = q.line ∧ p.column ≤ q.column

namespace Text

/-- The characters of a text between line feeds or its ends, with so many line feeds in front. -/
def IsLine (text : List Char) (n : Nat) (line : List Char) : Prop :=
  '\n' ∉ line ∧ ∃ before after, text = before ++ line ++ after ∧ before.count '\n' = n ∧
    (before = [] ∨ ∃ front, before = front ++ ['\n']) ∧ (after = [] ∨ ∃ back, after = '\n' :: back)

/-- A point with a byte column as one with a character column. -/
def turned (text : String) : Point → Point := charPoint (splitChars (· == '\n') text.toList)

section Lines

variable {text line : List Char} {n : Nat}

private theorem splitChars_feed (text : List Char) :
    splitChars (· == '\n') ('\n' :: text) = [] :: splitChars (· == '\n') text :=
  splitChars_cons_of_sep rfl

private theorem splitChars_other {c : Char} (other : c ≠ '\n') (text : List Char) :
    ∃ piece rest, splitChars (· == '\n') text = piece :: rest ∧
      splitChars (· == '\n') (c :: text) = (c :: piece) :: rest := by
  obtain ⟨piece, rest, pieces⟩ := List.exists_cons_of_ne_nil (splitChars_ne_nil (· == '\n') text)
  have plain : (c == '\n') = false := beq_eq_false_iff_ne.2 other
  exact ⟨piece, rest, pieces, @splitChars_cons_of_other _ (· == '\n') text c plain _ _ pieces⟩

theorem length_splitChars (text : List Char) :
    (splitChars (· == '\n') text).length = text.count '\n' + 1 := by
  induction text with
  | nil => rfl
  | cons c text ih =>
    by_cases feed : c = '\n'
    · rw [feed, splitChars_feed, List.length_cons, ih, List.count_cons_self]
    · obtain ⟨piece, rest, pieces, longer⟩ := splitChars_other feed text
      rw [longer, List.count_cons_of_ne feed, ← ih, pieces, List.length_cons, List.length_cons]

private theorem before_cons {before : List Char} (c : Char)
    (ends : before = [] ∨ ∃ front, before = front ++ ['\n']) (feeds : before.count '\n' ≠ 0) :
    ∃ front, c :: before = front ++ ['\n'] := by
  rcases ends with rfl | ⟨front, rfl⟩
  · exact absurd rfl feeds
  · exact ⟨c :: front, rfl⟩

private theorem eq_nil_of_no_feed {before : List Char}
    (ends : before = [] ∨ ∃ front, before = front ++ ['\n']) (feeds : before.count '\n' = 0) :
    before = [] := by
  rcases ends with rfl | ⟨front, rfl⟩
  · rfl
  · simp at feeds

private theorem isLine_of_getElem? (found : (splitChars (· == '\n') text)[n]? = some line) :
    IsLine text n line := by
  refine ⟨fun inside => ?_, ?_⟩
  · have other := others_of_mem_splitChars (List.mem_of_getElem? found) '\n' inside
    cases other
  induction text generalizing n line with
  | nil =>
    cases n with
    | zero =>
      obtain rfl := Option.some.inj found
      exact ⟨[], [], rfl, rfl, .inl rfl, .inl rfl⟩
    | succ n => cases found
  | cons c text ih =>
    by_cases feed : c = '\n'
    · obtain rfl := feed
      rw [splitChars_feed] at found
      cases n with
      | zero =>
        obtain rfl := Option.some.inj found
        exact ⟨[], '\n' :: text, rfl, rfl, .inl rfl, .inr ⟨text, rfl⟩⟩
      | succ n =>
        obtain ⟨before, after, rfl, feeds, starts, ends⟩ := ih found
        refine ⟨'\n' :: before, after, rfl, by simp [feeds], .inr ?_, ends⟩
        rcases starts with rfl | ⟨front, rfl⟩
        · exact ⟨[], rfl⟩
        · exact ⟨'\n' :: front, rfl⟩
    · obtain ⟨piece, rest, pieces, longer⟩ := splitChars_other feed text
      rw [longer] at found
      cases n with
      | zero =>
        obtain rfl := Option.some.inj found
        obtain ⟨before, after, whole, feeds, starts, ends⟩ := ih (n := 0) (by rw [pieces]; rfl)
        obtain rfl := eq_nil_of_no_feed starts feeds
        exact ⟨[], after, by rw [whole]; rfl, rfl, .inl rfl, ends⟩
      | succ n =>
        obtain ⟨before, after, rfl, feeds, starts, ends⟩ :=
          ih (n := n + 1) (by rw [pieces]; exact found)
        refine ⟨c :: before, after, rfl, ?_, .inr (before_cons c starts (by omega)), ends⟩
        rw [List.count_cons_of_ne feed, feeds]

theorem getElem?_splitChars_iff :
    (splitChars (· == '\n') text)[n]? = some line ↔ IsLine text n line := by
  refine ⟨isLine_of_getElem?, ?_⟩
  rintro ⟨plain, before, after, rfl, rfl, starts, ends⟩
  have others : ∀ c ∈ line, (c == '\n') = false :=
    fun c inside => beq_eq_false_iff_ne.2 (fun feed => plain (feed ▸ inside))
  have first : (splitChars (· == '\n') (line ++ after))[0]? = some line := by
    rcases ends with rfl | ⟨back, rfl⟩
    · rw [List.append_nil, splitChars_of_others others]
      rfl
    · rw [splitChars_append_of_others others (splitChars_feed back), List.append_nil]
      rfl
  rcases starts with rfl | ⟨front, rfl⟩
  · exact first
  · have parted : splitChars (· == '\n') (front ++ ['\n'] ++ line ++ after) =
        splitChars (· == '\n') front ++ splitChars (· == '\n') (line ++ after) := by
      rw [List.append_assoc, List.append_assoc, List.singleton_append,
        splitChars_append_sep front (line ++ after) rfl]
    have number : (front ++ ['\n']).count '\n' = (splitChars (· == '\n') front).length := by
      rw [length_splitChars, List.count_append, List.count_singleton_self]
    rw [parted, number, List.getElem?_append_right (Nat.le_refl _), Nat.sub_self, first]

end Lines

theorem charsBefore_eq_countP (line : List Char) (byte : Nat) :
    charsBefore line byte =
      (List.range line.length).countP (fun i => byteLength (line.take i) < byte) := by
  induction line generalizing byte with
  | nil => rfl
  | cons c line ih =>
    rw [charsBefore, List.length_cons, List.range_succ_eq_map, List.countP_cons, List.countP_map]
    by_cases zero : byte = 0
    · simp [zero]
    · have first : 0 < byte := Nat.pos_of_ne_zero zero
      rw [if_neg zero, ih]
      congr 1
      · refine List.countP_congr (fun i _ => ?_)
        simp only [Function.comp_apply, List.take_succ_cons, byteLength, decide_eq_true_eq]
        omega
      · simp [byteLength, first]

theorem charsBefore_mono (line : List Char) {a b : Nat} (later : a ≤ b) :
    charsBefore line a ≤ charsBefore line b := by
  rw [charsBefore_eq_countP, charsBefore_eq_countP]
  refine List.countP_mono_left (fun i _ before => ?_)
  simp only [decide_eq_true_eq] at before ⊢
  exact Nat.lt_of_lt_of_le before later

section Turned

variable {text : String} {p q : Point}

theorem turned_line (text : String) (p : Point) : (turned text p).line = p.line := by
  unfold turned charPoint
  split <;> rfl

theorem turned_of_isLine {line : List Char} (here : IsLine text.toList p.line line) :
    turned text p = ⟨p.line, charsBefore line p.column⟩ := by
  rw [turned, charPoint, getElem?_splitChars_iff.2 here]

theorem exists_isLine {n : Nat} (inside : n ≤ text.toList.count '\n') :
    ∃ line, IsLine text.toList n line := by
  have short : n < (splitChars (· == '\n') text.toList).length := by
    rw [length_splitChars]
    exact Nat.lt_succ_of_le inside
  exact ⟨_, getElem?_splitChars_iff.1 (List.getElem?_eq_getElem short)⟩

theorem turned_beyond (beyond : text.toList.count '\n' < p.line) : turned text p = p := by
  have long : (splitChars (· == '\n') text.toList).length ≤ p.line := by
    rw [length_splitChars]
    exact beyond
  rw [turned, charPoint, List.getElem?_eq_none long]

theorem turned_atMost (order : p.AtMost q) : (turned text p).AtMost (turned text q) := by
  unfold Point.AtMost
  rw [turned_line, turned_line]
  refine order.imp id (fun same => ⟨same.1, ?_⟩)
  rcases Nat.lt_or_ge (text.toList.count '\n') p.line with beyond | inside
  · rw [turned_beyond beyond, turned_beyond (same.1 ▸ beyond)]
    exact same.2
  · obtain ⟨line, here⟩ := exists_isLine inside
    rw [turned_of_isLine here, turned_of_isLine (same.1 ▸ here)]
    exact charsBefore_mono line same.2

end Turned

end Text

end CodeOutline
