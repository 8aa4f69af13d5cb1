import CodeOutline.Proofs.Text.Pieces
import CodeOutline.Proofs.Text.Points
import CodeOutline.Proofs.Text.Trimming
import CodeOutline.Text.Comment

/-!
Names that are looked for in the lines of a text. Where a name is found it stands, counted in bytes
or, after the columns are turned, in characters.
-/

set_option autoImplicit false

namespace CodeOutline.Text

open Syntax.Scan (append_of_dropStart? dropStart?_append)

/-! Searching -/

section Search

variable {needle cs before after : List Char}

theorem append_of_cutFirst? (cut : cutFirst? needle cs = some (before, after)) :
    before ++ needle ++ after = cs := by
  induction cs generalizing before with
  | nil =>
    rw [cutFirst?] at cut
    split at cut
    · next empty =>
      obtain ⟨rfl, rfl⟩ := Prod.mk.inj (Option.some.inj cut)
      rw [List.isEmpty_iff.1 empty]
      rfl
    · cases cut
  | cons c cs ih =>
    rw [cutFirst?] at cut
    split at cut
    · next rest drop =>
      obtain ⟨rfl, rfl⟩ := Prod.mk.inj (Option.some.inj cut)
      exact append_of_dropStart? drop
    · obtain ⟨⟨front, back⟩, later, same⟩ := Option.map_eq_some_iff.1 cut
      obtain ⟨rfl, rfl⟩ := Prod.mk.inj same
      rw [List.cons_append, List.cons_append, ih later]

theorem exists_cutFirst? (inside : needle <:+: cs) :
    ∃ before after, cutFirst? needle cs = some (before, after) := by
  induction cs with
  | nil =>
    obtain rfl := List.infix_nil.1 inside
    exact ⟨[], [], rfl⟩
  | cons c cs ih =>
    rw [cutFirst?]
    split
    · next rest _ => exact ⟨[], rest, rfl⟩
    · next missing =>
      rcases List.infix_cons_iff.1 inside with ⟨rest, here⟩ | later
      · rw [← here, dropStart?_append] at missing
        cases missing
      · obtain ⟨before, after, cut⟩ := ih later
        exact ⟨c :: before, after, by rw [cut]; rfl⟩

theorem contains_iff {s word : String} : contains s word = true ↔ word.toList <:+: s.toList := by
  rw [contains, Option.isSome_iff_exists]
  constructor
  · rintro ⟨⟨before, after⟩, cut⟩
    exact ⟨before, after, append_of_cutFirst? cut⟩
  · intro inside
    obtain ⟨before, after, cut⟩ := exists_cutFirst? inside
    exact ⟨(before, after), cut⟩

theorem startsWith_iff {s start : String} :
    startsWith s start = true ↔ start.toList <+: s.toList := by
  rw [startsWith, Option.isSome_iff_exists]
  constructor
  · rintro ⟨rest, drop⟩
    exact ⟨rest, append_of_dropStart? drop⟩
  · rintro ⟨rest, whole⟩
    exact ⟨rest, by rw [← whole, dropStart?_append]⟩

theorem append_of_dropEnd? {ending : List Char} (drop : dropEnd? ending cs = some before) :
    before ++ ending = cs := by
  obtain ⟨turned, found, rfl⟩ := Option.map_eq_some_iff.1 drop
  rw [← List.reverse_reverse cs, ← append_of_dropStart? found, List.reverse_append,
    List.reverse_reverse]

theorem infix_append_cons_iff {c : Char} (absent : c ∉ needle) (xs ys : List Char) :
    needle <:+: xs ++ c :: ys ↔ needle <:+: xs ∨ needle <:+: ys := by
  have leads (xs : List Char) : needle <+: xs ++ c :: ys ↔ needle <+: xs := by
    refine ⟨fun whole => ?_, fun part => part.trans (List.prefix_append _ _)⟩
    rcases List.prefix_or_prefix_of_prefix whole (List.prefix_append xs (c :: ys)) with
      part | ⟨more, rfl⟩
    · exact part
    · cases more with
      | nil => rw [List.append_nil]
      | cons d more =>
        obtain ⟨rfl, -⟩ := List.cons_prefix_cons.1 ((List.prefix_append_right_inj xs).1 whole)
        simp at absent
  induction xs with
  | nil =>
    rw [List.nil_append, List.infix_cons_iff, List.infix_nil]
    refine or_congr_left ⟨fun whole => ?_, fun nothing => nothing ▸ List.nil_prefix⟩
    exact List.prefix_nil.1 ((leads []).1 whole)
  | cons x xs ih =>
    have here := leads (x :: xs)
    rw [List.cons_append] at here ⊢
    rw [List.infix_cons_iff, here, List.infix_cons_iff, or_assoc]
    exact or_congr_right ih

theorem dropStart?_append_of_none (missing : dropStart? needle cs = none)
    (short : needle.length ≤ cs.length) (more : List Char) :
    dropStart? needle (cs ++ more) = none := by
  cases found : dropStart? needle (cs ++ more) with
  | none => rfl
  | some rest =>
    obtain ⟨behind, parts⟩ : needle <+: cs :=
      List.prefix_of_prefix_length_le ⟨rest, append_of_dropStart? found⟩ (List.prefix_append _ _)
        short
    rw [← parts, dropStart?_append] at missing
    cases missing

theorem cutFirst?_append_of_some (cut : cutFirst? needle cs = some (before, after))
    (more : List Char) : cutFirst? needle (cs ++ more) = some (before, after ++ more) := by
  induction cs generalizing before with
  | nil =>
    rw [cutFirst?] at cut
    split at cut
    · next empty =>
      obtain ⟨rfl, rfl⟩ := Prod.mk.inj (Option.some.inj cut)
      obtain rfl := List.isEmpty_iff.1 empty
      cases more <;> rfl
    · cases cut
  | cons c cs ih =>
    rw [List.cons_append, cutFirst?]
    rw [cutFirst?] at cut
    split at cut
    · next rest drop =>
      obtain ⟨rfl, rfl⟩ := Prod.mk.inj (Option.some.inj cut)
      rw [← List.cons_append, ← append_of_dropStart? drop, List.append_assoc, dropStart?_append]
    · next missing =>
      obtain ⟨⟨front, back⟩, later, same⟩ := Option.map_eq_some_iff.1 cut
      obtain ⟨rfl, rfl⟩ := Prod.mk.inj same
      have short : needle.length ≤ (c :: cs).length := by
        rw [← append_of_cutFirst? later]
        simp only [List.length_cons, List.length_append]
        omega
      rw [← List.cons_append, dropStart?_append_of_none missing short, ih later]
      rfl

theorem cutFirst?_of_first (absent : ¬needle <:+: before ++ needle.dropLast) (after : List Char) :
    cutFirst? needle (before ++ (needle ++ after)) = some (before, after) := by
  have inside : needle <:+: before ++ needle := ⟨before, [], List.append_nil _⟩
  obtain ⟨front, back, cut⟩ := exists_cutFirst? inside
  have parts := append_of_cutFirst? cut
  rcases back.eq_nil_or_concat with rfl | ⟨more, c, rfl⟩
  · rw [List.append_nil, List.append_left_inj] at parts
    rw [← List.append_assoc, cutFirst?_append_of_some cut, List.nil_append, parts]
  · refine absurd ⟨front, more, ?_⟩ absent
    have filled : needle ≠ [] := by
      rintro rfl
      exact absent List.nil_infix
    rw [← List.dropLast_append_of_ne_nil filled, ← parts, List.concat_eq_append,
      ← List.append_assoc, List.dropLast_concat]

end Search

/-! One character -/

section One

variable {c : Char} {xs ys : List Char}

theorem dropStart?_singleton (c d : Char) (cs : List Char) :
    dropStart? [c] (d :: cs) = if c = d then some cs else none := rfl

theorem cutFirst?_of_not_mem (absent : c ∉ xs) : cutFirst? [c] xs = none := by
  induction xs with
  | nil => rfl
  | cons d xs ih =>
    rw [List.mem_cons, not_or] at absent
    simp only [cutFirst?, dropStart?_singleton, if_neg absent.1, ih absent.2, Option.map_none]

theorem cutFirst?_append (absent : c ∉ xs) (ys : List Char) :
    cutFirst? [c] (xs ++ c :: ys) = some (xs, ys) := by
  induction xs with
  | nil => simp only [List.nil_append, cutFirst?, dropStart?_singleton, if_true]
  | cons d xs ih =>
    rw [List.mem_cons, not_or] at absent
    simp only [List.cons_append, cutFirst?, dropStart?_singleton, if_neg absent.1, ih absent.2,
      Option.map_some]

theorem cutLast?_of_not_mem (absent : c ∉ xs) : cutLast? [c] xs = none := by
  rw [cutLast?, List.reverse_singleton, cutFirst?_of_not_mem (by simpa using absent),
    Option.map_none]

theorem cutLast?_append (xs : List Char) (absent : c ∉ ys) :
    cutLast? [c] (xs ++ c :: ys) = some (xs, ys) := by
  have turned : (xs ++ c :: ys).reverse = ys.reverse ++ c :: xs.reverse := by simp
  rw [cutLast?, List.reverse_singleton, turned, cutFirst?_append (by simpa using absent),
    Option.map_some]
  simp only [List.reverse_reverse]

end One

theorem byteCount_eq_byteLength (cs : List Char) : byteCount cs = byteLength cs := by
  suffices ∀ n, cs.foldl (fun n c => n + c.utf8Size) n = n + byteLength cs by
    rw [byteCount, this, Nat.zero_add]
  induction cs with
  | nil => exact fun n => (Nat.add_zero n).symm
  | cons c cs ih =>
    intro n
    rw [List.foldl_cons, ih, byteLength, Nat.add_assoc]

theorem byteLength_append (xs ys : List Char) :
    byteLength (xs ++ ys) = byteLength xs + byteLength ys := by
  induction xs with
  | nil => exact (Nat.zero_add _).symm
  | cons c xs ih => rw [List.cons_append, byteLength, byteLength, ih, Nat.add_assoc]

theorem byteLength_of_ascii {cs : List Char} (ascii : ∀ c ∈ cs, c.toNat < 128) :
    byteLength cs = cs.length := by
  induction cs with
  | nil => rfl
  | cons c cs ih =>
    obtain ⟨first, later⟩ := List.forall_mem_cons.1 ascii
    rw [byteLength, utf8Size_of_ascii first, ih later, List.length_cons, Nat.add_comm]

/-! Places -/

/-- On the line of the place the name stands between its columns, which count the width of what is
in front of them. -/
def StandsAt (width : List Char → Nat) (text name : String) (s : Span) : Prop :=
  ∃ n before after, (lines text)[n]? = some (String.ofList (before ++ name.toList ++ after)) ∧
    s = .onLine n (width before) (width name.toList)

section Places

variable {text name : String} {s : Span}

theorem standsAt_firstOccurrence? (found : firstOccurrence? text name = some s) :
    StandsAt byteCount text name s := by
  have search (all : List (List Char)) (from_ : Nat)
      (found : occurrenceFrom name.toList from_ all = some s) :
      ∃ n before after, all[n]? = some (before ++ name.toList ++ after) ∧
        s = .onLine (from_ + n) (byteCount before) (byteCount name.toList) := by
    induction all generalizing from_ with
    | nil => cases found
    | cons line all ih =>
      rw [occurrenceFrom] at found
      split at found
      · next column here =>
        obtain rfl := Option.some.inj found
        obtain ⟨⟨before, after⟩, cut, rfl⟩ := Option.map_eq_some_iff.1 here
        exact ⟨0, before, after, by rw [append_of_cutFirst? cut]; rfl, rfl⟩
      · obtain ⟨n, before, after, there, rfl⟩ := ih (from_ + 1) found
        exact ⟨n + 1, before, after, there, by rw [Nat.add_assoc, Nat.add_comm 1]⟩
  rw [firstOccurrence?] at found
  split at found
  · cases found
  · obtain ⟨n, before, after, there, rfl⟩ := search _ 0 found
    refine ⟨n, before, after, ?_, by rw [Nat.zero_add]⟩
    rw [lines, List.getElem?_map, there, Option.map_some]

theorem standsAt_placeInLine {n : Nat} {raw : String} (line : (lines text)[n]? = some raw)
    (inside : name.toList <:+: raw.toList) :
    StandsAt byteCount text name (placeInLine n raw name) := by
  obtain ⟨before, after, cut⟩ := exists_cutFirst? inside
  refine ⟨n, before, after, ?_, ?_⟩
  · rw [append_of_cutFirst? cut, String.ofList_toList, line]
  · rw [placeInLine, byteColumn?, cut, Option.map_some, Option.getD_some]

theorem exists_piece_of_lines {n : Nat} {cs : List Char}
    (line : (lines text)[n]? = some (String.ofList cs)) :
    ∃ back, (splitChars (· == '\n') text.toList)[n]? = some (cs ++ back) := by
  rw [lines, List.getElem?_map] at line
  obtain ⟨same, there, equal⟩ := Option.map_eq_some_iff.1 line
  obtain rfl := String.ofList_injective equal
  exact exists_piece_of_line there

theorem StandsAt.of_ascii (stands : StandsAt byteCount text name s)
    (ascii : isAscii text = true) : StandsAt List.length text name s := by
  obtain ⟨n, before, after, line, rfl⟩ := stands
  obtain ⟨back, piece⟩ := exists_piece_of_lines line
  have single : ∀ c ∈ before ++ name.toList ++ after ++ back, c.toNat < 128 := by
    intro c inside
    have among := mem_of_mem_splitChars (List.mem_of_getElem? piece) inside
    exact of_decide_eq_true (List.all_eq_true.1 ascii c among)
  simp only [List.forall_mem_append] at single
  refine ⟨n, before, after, line, ?_⟩
  rw [byteCount_eq_byteLength, byteCount_eq_byteLength, byteLength_of_ascii single.1.1.1,
    byteLength_of_ascii single.1.1.2]

theorem StandsAt.charPoint (stands : StandsAt byteCount text name s) :
    StandsAt List.length text name
      (s.map (charPoint (splitChars (· == '\n') text.toList))) := by
  obtain ⟨n, before, after, line, rfl⟩ := stands
  obtain ⟨back, piece⟩ := exists_piece_of_lines line
  have column (front rest : List Char)
      (whole : front ++ rest = before ++ name.toList ++ after ++ back) :
      Text.charPoint (splitChars (· == '\n') text.toList) ⟨n, byteLength front⟩ =
        ⟨n, front.length⟩ := by
    rw [Text.charPoint, piece, ← whole]
    simp only [charsBefore_byteLength]
  have start := column before (name.toList ++ after ++ back) (by simp)
  have stop := column (before ++ name.toList) (after ++ back) (by simp)
  refine ⟨n, before, after, line, ?_⟩
  rw [byteCount_eq_byteLength, byteCount_eq_byteLength, Span.onLine, Span.map, start,
    ← byteLength_append, stop, List.length_append, Span.onLine]

end Places

end CodeOutline.Text

/-!
Points that stand in a text: the line is one of the text, and the column counts the bytes of a
beginning of it.
-/

namespace CodeOutline

open Syntax (Place)

namespace Text

/-- The point stands between two characters of its line, or at an end of it. -/
def IsWithin (text : String) (p : Point) : Prop :=
  ∃ front back, IsLine text.toList p.line (front ++ back) ∧ p.column = byteLength front

variable {text : String} {p : Point}

theorem exists_line_behind (front : List Char) : ∃ before line,
    front = before ++ line ∧ '\n' ∉ line ∧ (before = [] ∨ ∃ more, before = more ++ ['\n']) ∧
      (Place.behind front).point = ⟨before.count '\n', byteLength line⟩ := by
  induction front using List.reverseRecOn with
  | nil => exact ⟨[], [], rfl, List.not_mem_nil, .inl rfl, rfl⟩
  | append_singleton front c ih =>
    obtain ⟨before, line, rfl, plain, starts, point⟩ := ih
    have next : Place.behind (before ++ line ++ [c]) = (Place.behind (before ++ line)).next c :=
      Place.behind_append _ [c]
    by_cases feed : c = '\n'
    · have count : (before ++ line ++ [c]).count '\n' = before.count '\n' + 1 := by
        rw [feed, List.count_append, List.count_append, List.count_eq_zero.2 plain,
          List.count_singleton_self]
      refine ⟨before ++ line ++ [c], [], (List.append_nil _).symm, List.not_mem_nil,
        .inr ⟨before ++ line, by rw [feed]⟩, ?_⟩
      rw [next, Place.next, if_pos feed, count]
      exact congrArg (fun p : Point => Point.mk (p.line + 1) 0) point
    · refine ⟨before, line ++ [c], List.append_assoc .., ?_, starts, ?_⟩
      · rw [List.mem_append, List.mem_singleton, not_or]
        exact ⟨plain, Ne.symm feed⟩
      · rw [next, Place.next, if_neg feed, byteLength_concat]
        exact congrArg (fun p : Point => Point.mk p.line (p.column + c.utf8Size)) point

theorem isWithin_behind {front rest : List Char} (whole : text.toList = front ++ rest) :
    IsWithin text (Place.behind front).point := by
  obtain ⟨before, line, rfl, plain, starts, point⟩ := exists_line_behind front
  rw [point]
  refine ⟨line, rest.takeWhile (· != '\n'), ⟨?_, before, rest.dropWhile (· != '\n'), ?_, rfl,
    starts, ?_⟩, rfl⟩
  · rw [List.mem_append, not_or]
    exact ⟨plain, fun feed => absurd (List.mem_takeWhile_imp feed) (by decide)⟩
  · rw [whole, List.append_assoc before, List.append_assoc before, List.append_assoc line,
      List.takeWhile_append_dropWhile]
  · have stops := List.head?_dropWhile_not (· != '\n') rest
    cases after : rest.dropWhile (· != '\n') with
    | nil => exact .inl rfl
    | cons c more =>
      have feed : c = '\n' := by simpa [after] using stops
      exact .inr ⟨more, by rw [feed]⟩

theorem length_le_byteLength (cs : List Char) : cs.length ≤ byteLength cs := by
  induction cs with
  | nil => exact Nat.le_refl 0
  | cons c cs ih =>
    have positive := c.utf8Size_pos
    rw [List.length_cons, byteLength]
    omega

theorem charsBefore_le_length (line : List Char) (byte : Nat) :
    charsBefore line byte ≤ line.length := by
  rw [charsBefore_eq_countP]
  exact List.countP_le_length.trans_eq List.length_range

theorem IsWithin.turned_eq (within : IsWithin text p) (ascii : isAscii text = true) :
    turned text p = p := by
  obtain ⟨front, back, here, column⟩ := within
  have single : ∀ c ∈ front, c.toNat < 128 := by
    intro c inside
    obtain ⟨-, before, after, whole, -⟩ := here
    have among : c ∈ text.toList := by
      rw [whole]
      simp [inside]
    exact of_decide_eq_true (List.all_eq_true.1 ascii c among)
  rw [turned_of_isLine here, column, charsBefore_byteLength, ← byteLength_of_ascii single,
    ← column]

theorem not_isWithin_of_long {line : List Char} (here : IsLine text.toList p.line line)
    (long : byteLength line < p.column) : ¬IsWithin text p := by
  rintro ⟨front, back, there, column⟩
  have same : line = front ++ back :=
    Option.some.inj ((getElem?_splitChars_iff.2 here).symm.trans (getElem?_splitChars_iff.2 there))
  rw [same, byteLength_append, column] at long
  omega

theorem turned_ne_of_long {line : List Char} (here : IsLine text.toList p.line line)
    (long : byteLength line < p.column) : turned text p ≠ p := by
  intro stays
  have column : charsBefore line p.column = p.column := by
    rw [turned_of_isLine here] at stays
    exact congrArg Point.column stays
  have short := charsBefore_le_length line p.column
  have chars := length_le_byteLength line
  omega

/-- Both ends of the place are points of the text. -/
def IsSpan (text : String) (s : Span) : Prop := IsWithin text s.start ∧ IsWithin text s.stop

theorem IsSpan.map_turned {s : Span} (own : IsSpan text s) (ascii : isAscii text = true) :
    s.map (turned text) = s := by
  rw [Span.map, own.1.turned_eq ascii, own.2.turned_eq ascii]

theorem StandsAt.isSpan {name : String} {s : Span} (stands : StandsAt byteCount text name s) :
    IsSpan text s := by
  obtain ⟨n, before, after, line, rfl⟩ := stands
  obtain ⟨back, piece⟩ := exists_piece_of_lines line
  have here := getElem?_splitChars_iff.1 piece
  rw [List.append_assoc] at here
  refine ⟨⟨before, name.toList ++ (after ++ back), ?_, byteCount_eq_byteLength before⟩,
    ⟨before ++ name.toList, after ++ back, here, ?_⟩⟩
  · rwa [List.append_assoc] at here
  · rw [byteLength_append, ← byteCount_eq_byteLength, ← byteCount_eq_byteLength]
    rfl

end Text

end CodeOutline
