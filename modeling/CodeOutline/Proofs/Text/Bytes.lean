import CodeOutline.Text.Raw
import CodeOutline.Text.Search

/-!
The bytes of a text in UTF-8, each seen as the character with its number. A search for ASCII
characters finds the same among the bytes as among the characters. And the text is read back from
its bytes, so that raw text that comes from a text tells which one.
-/

set_option autoImplicit false

namespace CodeOutline.Text

/-- The bytes of a text in UTF-8. -/
def bytes (cs : List Char) : List UInt8 := cs.flatMap String.utf8EncodeChar

def byteChar (b : UInt8) : Char := Char.ofNat b.toNat

def byteChars (cs : List Char) : List Char := (bytes cs).map byteChar

variable {c d : Char} {cs : List Char}

theorem bytes_append (a b : List Char) : bytes (a ++ b) = bytes a ++ bytes b :=
  List.flatMap_append

@[simp]
theorem byteChars_nil : byteChars [] = [] := rfl

theorem byteChars_append (a b : List Char) : byteChars (a ++ b) = byteChars a ++ byteChars b := by
  rw [byteChars, bytes_append, List.map_append]
  rfl

theorem toUTF8_eq_bytes (s : String) : s.toUTF8.data.toList = bytes s.toList := by
  rw [String.toUTF8_eq_toByteArray, ← String.utf8Encode_toList, List.utf8Encode,
    List.data_toByteArray]
  rfl

theorem toNat_byteChar (b : UInt8) : (byteChar b).toNat = b.toNat := by
  have small := b.toNat_lt
  have valid : b.toNat.isValidChar := .inl (by omega)
  rw [byteChar, Char.ofNat, dif_pos valid]
  rfl

/-! One character -/

theorem encode_of_ascii (ascii : c.toNat < 128) :
    String.utf8EncodeChar c = [UInt8.ofNat c.toNat] := by
  have small : c.val.toNat ≤ 127 := Nat.le_of_lt_succ ascii
  rw [String.utf8EncodeChar, if_pos small]
  rfl

theorem byteChar_of_ascii (ascii : c.toNat < 128) : byteChar (UInt8.ofNat c.toNat) = c := by
  rw [byteChar, UInt8.toNat_ofNat', Nat.mod_eq_of_lt (by omega), Char.ofNat_toNat]

theorem bytes_cons_of_ascii (ascii : c.toNat < 128) (cs : List Char) :
    bytes (c :: cs) = UInt8.ofNat c.toNat :: bytes cs := by
  rw [bytes, List.flatMap_cons, encode_of_ascii ascii]
  rfl

theorem byteChars_cons_of_ascii (ascii : c.toNat < 128) (cs : List Char) :
    byteChars (c :: cs) = c :: byteChars cs := by
  rw [byteChars, bytes_cons_of_ascii ascii, List.map_cons, byteChar_of_ascii ascii]
  rfl

theorem ne_of_high (high : 128 ≤ c.toNat) (ascii : d.toNat < 128) : c ≠ d := by
  rintro rfl
  exact absurd ascii (Nat.not_lt.2 high)

theorem high_of_mem_encode (high : 128 ≤ c.toNat) {b : UInt8}
    (member : b ∈ String.utf8EncodeChar c) : 128 ≤ b.toNat := by
  have large : ¬ c.val.toNat ≤ 127 := Nat.not_le.2 high
  unfold String.utf8EncodeChar at member
  simp only [large, if_false] at member
  split at member
  · simp only [List.mem_cons, List.not_mem_nil, or_false] at member
    rcases member with rfl | rfl <;> (rw [UInt8.toNat_ofNat']; omega)
  split at member
  · simp only [List.mem_cons, List.not_mem_nil, or_false] at member
    rcases member with rfl | rfl | rfl <;> (rw [UInt8.toNat_ofNat']; omega)
  · simp only [List.mem_cons, List.not_mem_nil, or_false] at member
    rcases member with rfl | rfl | rfl | rfl <;> (rw [UInt8.toNat_ofNat']; omega)

theorem exists_byteChars_cons (high : 128 ≤ c.toNat) :
    ∃ front, (∀ cs, byteChars (c :: cs) = front ++ byteChars cs) ∧ front ≠ [] ∧
      ∀ d ∈ front, 128 ≤ d.toNat := by
  refine ⟨(String.utf8EncodeChar c).map byteChar, fun cs => ?_, by simp, ?_⟩
  · rw [byteChars, bytes, List.flatMap_cons, List.map_append]
    rfl
  · rw [List.forall_mem_map]
    intro b member
    rw [toNat_byteChar]
    exact high_of_mem_encode high member

/-! Searching -/

theorem head?_byteChars (ascii : d.toNat < 128) :
    (byteChars cs).head? = some d ↔ cs.head? = some d := by
  cases cs with
  | nil => rfl
  | cons c cs =>
    by_cases single : c.toNat < 128
    · rw [byteChars_cons_of_ascii single]
      rfl
    · obtain ⟨front, parts, filled, high⟩ := exists_byteChars_cons (Nat.not_lt.1 single)
      obtain ⟨e, rest, rfl⟩ := List.exists_cons_of_ne_nil filled
      have other : d ≠ c := fun same => single (same ▸ ascii)
      have first : d ≠ e := fun same =>
        absurd ascii (Nat.not_lt.2 (same ▸ high e List.mem_cons_self))
      simp [parts, Ne.symm other, Ne.symm first]

theorem dropStart?_byteChars {needle : List Char} (ascii : ∀ p ∈ needle, p.toNat < 128)
    (cs : List Char) :
    dropStart? needle (byteChars cs) = (dropStart? needle cs).map byteChars := by
  induction needle generalizing cs with
  | nil => cases cs <;> rfl
  | cons p needle ih =>
    rw [List.forall_mem_cons] at ascii
    cases cs with
    | nil => rfl
    | cons c cs =>
      by_cases same : p = c
      · subst same
        rw [byteChars_cons_of_ascii ascii.1, dropStart?, dropStart?, if_pos rfl, if_pos rfl,
          ih ascii.2]
      · have other : (byteChars (c :: cs)).head? ≠ some p := by
          rw [ne_eq, head?_byteChars ascii.1]
          simpa using Ne.symm same
        rw [dropStart?, if_neg same]
        cases chars : byteChars (c :: cs) with
        | nil => rfl
        | cons d rest =>
          rw [chars] at other
          rw [dropStart?, if_neg (by simpa using Ne.symm other)]
          rfl

theorem cutFirst?_append_of_others {p : Char} {needle front : List Char}
    (others : ∀ d ∈ front, d ≠ p) (cs : List Char) :
    cutFirst? (p :: needle) (front ++ cs) =
      (cutFirst? (p :: needle) cs).map (fun cut => (front ++ cut.1, cut.2)) := by
  induction front with
  | nil => simp
  | cons d front ih =>
    rw [List.forall_mem_cons] at others
    rw [List.cons_append, cutFirst?, dropStart?, if_neg (Ne.symm others.1), ih others.2]
    simp [Function.comp_def]

theorem cutFirst?_byteChars {p : Char} {needle : List Char}
    (ascii : ∀ d ∈ p :: needle, d.toNat < 128) (cs : List Char) :
    cutFirst? (p :: needle) (byteChars cs) =
      (cutFirst? (p :: needle) cs).map (Prod.map byteChars byteChars) := by
  induction cs with
  | nil => rfl
  | cons c cs ih =>
    have start := dropStart?_byteChars ascii (c :: cs)
    by_cases single : c.toNat < 128
    · rw [byteChars_cons_of_ascii single] at start ⊢
      rw [cutFirst?, cutFirst?, start]
      cases dropStart? (p :: needle) (c :: cs) with
      | some rest => rfl
      | none => simp [ih, Function.comp_def, byteChars_cons_of_ascii single]
    · obtain ⟨front, parts, -, high⟩ := exists_byteChars_cons (Nat.not_lt.1 single)
      have others : ∀ d ∈ front, d ≠ p := by
        rintro d member rfl
        exact absurd (ascii d List.mem_cons_self) (Nat.not_lt.2 (high d member))
      have first : p ≠ c := by
        rintro rfl
        exact single (ascii p List.mem_cons_self)
      rw [parts, cutFirst?_append_of_others others, ih, cutFirst?, dropStart?, if_neg first]
      simp [Function.comp_def, parts]

theorem takeWhile_byteChars (ascii : d.toNat < 128) (cs : List Char) :
    (byteChars cs).takeWhile (· != d) = byteChars (cs.takeWhile (· != d)) := by
  induction cs with
  | nil => rfl
  | cons c cs ih =>
    by_cases single : c.toNat < 128
    · rw [byteChars_cons_of_ascii single, List.takeWhile_cons, List.takeWhile_cons, ih]
      split
      · rw [byteChars_cons_of_ascii single]
      · rfl
    · obtain ⟨front, parts, -, high⟩ := exists_byteChars_cons (Nat.not_lt.1 single)
      have others : ∀ e ∈ front, (e != d) = true := by
        intro e member
        rw [bne_iff_ne]
        rintro rfl
        exact absurd ascii (Nat.not_lt.2 (high e member))
      have first : (c != d) = true := by
        rw [bne_iff_ne]
        rintro rfl
        exact single ascii
      rw [parts, List.takeWhile_append_of_pos others, List.takeWhile_cons, if_pos first, parts, ih]

/-! The ends of a text -/

theorem ofNat_eq_iff_of_ascii (ascii : d.toNat < 128) {b : UInt8} :
    b = UInt8.ofNat d.toNat ↔ byteChar b = d := by
  refine ⟨fun same => same ▸ byteChar_of_ascii ascii, fun same => ?_⟩
  rw [← same, toNat_byteChar, UInt8.ofNat_toNat]

theorem head?_bytes (ascii : d.toNat < 128) (cs : List Char) :
    (bytes cs).head? = some (UInt8.ofNat d.toNat) ↔ cs.head? = some d := by
  rw [← head?_byteChars ascii, byteChars, List.head?_map, Option.map_eq_some_iff]
  simp [← ofNat_eq_iff_of_ascii ascii]

theorem getLast?_bytes (ascii : d.toNat < 128) (cs : List Char) :
    (bytes cs).getLast? = some (UInt8.ofNat d.toNat) ↔ cs.getLast? = some d := by
  rcases cs.eq_nil_or_concat with rfl | ⟨front, c, rfl⟩
  · simp [bytes]
  rw [List.concat_eq_append, bytes_append, List.getLast?_concat, Option.some.injEq]
  by_cases single : c.toNat < 128
  · have last : bytes [c] = [UInt8.ofNat c.toNat] := bytes_cons_of_ascii single []
    rw [last, List.getLast?_concat, Option.some.injEq, ofNat_eq_iff_of_ascii ascii,
      byteChar_of_ascii single]
  · have other : c ≠ d := ne_of_high (Nat.not_lt.1 single) ascii
    have filled : (bytes [c]).getLast?.isSome = true := by simp [bytes]
    rw [List.getLast?_append, Option.or_of_isSome filled]
    refine iff_of_false (fun last => ?_) other
    have high := high_of_mem_encode (Nat.not_lt.1 single)
      (by simpa [bytes] using List.mem_of_getLast? last)
    rw [UInt8.toNat_ofNat', Nat.mod_eq_of_lt (by omega)] at high
    omega

end CodeOutline.Text

namespace CodeOutline

/-! ## Reading the bytes back -/

namespace Utf8

theorem decodeFrom_cons (begun : Option Begun) (byte : UInt8) (bytes : List UInt8) :
    decodeFrom begun (byte :: bytes) =
      (step begun byte.toNat).1 ++ decodeFrom (step begun byte.toNat).2 bytes := by
  cases begun <;> rfl

section Steps

variable {b : Begun} {byte : Nat} (inside : b.low ≤ byte ∧ byte ≤ b.high)

include inside

private theorem step_last (last : b.left = 1) :
    step (some b) byte = ([some (Char.ofNat (b.value * 64 + (byte - 0x80)))], none) := by
  simp [step, inside, last]

private theorem step_more (more : b.left ≠ 1) :
    step (some b) byte =
      ([], some { value := b.value * 64 + (byte - 0x80), left := b.left - 1 }) := by
  simp [step, inside, more]

end Steps

private theorem toNat_byte {n : Nat} (small : n < 256) : (UInt8.ofNat n).toNat = n := by
  rw [UInt8.toNat_ofNat', Nat.mod_eq_of_lt small]

private theorem decodeFrom_more {b : Begun} {n : Nat} (small : n < 256)
    (inside : b.low ≤ n ∧ n ≤ b.high) (more : b.left ≠ 1) (bytes : List UInt8) :
    decodeFrom (some b) (UInt8.ofNat n :: bytes) =
      decodeFrom (some { value := b.value * 64 + (n - 0x80), left := b.left - 1 }) bytes := by
  rw [decodeFrom_cons, toNat_byte small, step_more inside more]
  rfl

private theorem decodeFrom_last {b : Begun} {n : Nat} (small : n < 256)
    (inside : b.low ≤ n ∧ n ≤ b.high) (last : b.left = 1) (bytes : List UInt8) :
    decodeFrom (some b) (UInt8.ofNat n :: bytes) =
      some (Char.ofNat (b.value * 64 + (n - 0x80))) :: decodeFrom none bytes := by
  rw [decodeFrom_cons, toNat_byte small, step_last inside last]
  rfl

private theorem decodeFrom_first {n : Nat} (small : n < 256) {read : List (Option Char)}
    {begun : Option Begun} (starts : first n = (read, begun)) (bytes : List UInt8) :
    decodeFrom none (UInt8.ofNat n :: bytes) = read ++ decodeFrom begun bytes := by
  rw [decodeFrom_cons, toNat_byte small, step, starts]

section Characters

variable {v : Nat} (bytes : List UInt8)

private theorem decodeFrom_two (long : 0x7F < v) (short : v ≤ 0x7FF) :
    decodeFrom none (.ofNat (v / 64 % 0x20 + 0xc0) :: .ofNat (v % 0x40 + 0x80) :: bytes) =
      some (Char.ofNat v) :: decodeFrom none bytes := by
  have starts : first (v / 64 % 0x20 + 0xc0) = ([], some { value := v / 64, left := 1 }) := by
    have value : v / 64 % 0x20 + 0xc0 - 0xC0 = v / 64 := by omega
    rw [first, if_neg (by omega), if_neg (by omega), if_pos (by omega), value]
  have whole : v / 64 * 64 + (v % 0x40 + 0x80 - 0x80) = v := by omega
  rw [decodeFrom_first (by omega) starts, List.nil_append,
    decodeFrom_last (by omega) (by dsimp only; omega) rfl, whole]

private theorem decodeFrom_three (long : 0x7FF < v) (short : v ≤ 0xFFFF)
    (valid : v < 0xD800 ∨ 0xDFFF < v) :
    decodeFrom none (.ofNat (v / 4096 % 0x10 + 0xe0) :: .ofNat (v / 64 % 0x40 + 0x80) ::
        .ofNat (v % 0x40 + 0x80) :: bytes) =
      some (Char.ofNat v) :: decodeFrom none bytes := by
  have starts : first (v / 4096 % 0x10 + 0xe0) = ([], some {
      value := v / 4096, left := 2, low := if v / 4096 = 0 then 0xA0 else 0x80,
      high := if v / 4096 = 0xD then 0x9F else 0xBF }) := by
    have lead : v / 4096 % 0x10 = v / 4096 := by omega
    have low : (v / 4096 + 0xe0 = 0xE0) = (v / 4096 = 0) := by rw [eq_iff_iff]; omega
    have high : (v / 4096 + 0xe0 = 0xED) = (v / 4096 = 0xD) := by rw [eq_iff_iff]; omega
    rw [lead, first, if_neg (by omega), if_neg (by omega), if_neg (by omega), if_pos (by omega)]
    simp only [low, high, Nat.add_sub_cancel]
  have inside : (if v / 4096 = 0 then 0xA0 else 0x80) ≤ v / 64 % 0x40 + 0x80 ∧
      v / 64 % 0x40 + 0x80 ≤ (if v / 4096 = 0xD then 0x9F else 0xBF) := by
    split <;> split <;> omega
  have second : v / 4096 * 64 + (v / 64 % 0x40 + 0x80 - 0x80) = v / 64 := by omega
  have whole : v / 64 * 64 + (v % 0x40 + 0x80 - 0x80) = v := by omega
  rw [decodeFrom_first (by omega) starts, List.nil_append,
    decodeFrom_more (by omega) inside (by simp), second,
    decodeFrom_last (by omega) (by dsimp only; omega) rfl, whole]

private theorem decodeFrom_four (long : 0xFFFF < v) (short : v < 0x110000) :
    decodeFrom none (.ofNat (v / 262144 % 0x08 + 0xf0) :: .ofNat (v / 4096 % 0x40 + 0x80) ::
        .ofNat (v / 64 % 0x40 + 0x80) :: .ofNat (v % 0x40 + 0x80) :: bytes) =
      some (Char.ofNat v) :: decodeFrom none bytes := by
  have starts : first (v / 262144 % 0x08 + 0xf0) = ([], some {
      value := v / 262144, left := 3, low := if v / 262144 = 0 then 0x90 else 0x80,
      high := if v / 262144 = 4 then 0x8F else 0xBF }) := by
    have lead : v / 262144 % 0x08 = v / 262144 := by omega
    have low : (v / 262144 + 0xf0 = 0xF0) = (v / 262144 = 0) := by rw [eq_iff_iff]; omega
    have high : (v / 262144 + 0xf0 = 0xF4) = (v / 262144 = 4) := by rw [eq_iff_iff]; omega
    rw [lead, first, if_neg (by omega), if_neg (by omega), if_neg (by omega), if_neg (by omega),
      if_pos (by omega)]
    simp only [low, high, Nat.add_sub_cancel]
  have inside : (if v / 262144 = 0 then 0x90 else 0x80) ≤ v / 4096 % 0x40 + 0x80 ∧
      v / 4096 % 0x40 + 0x80 ≤ (if v / 262144 = 4 then 0x8F else 0xBF) := by
    split <;> split <;> omega
  have second : v / 262144 * 64 + (v / 4096 % 0x40 + 0x80 - 0x80) = v / 4096 := by omega
  have third : v / 4096 * 64 + (v / 64 % 0x40 + 0x80 - 0x80) = v / 64 := by omega
  have whole : v / 64 * 64 + (v % 0x40 + 0x80 - 0x80) = v := by omega
  rw [decodeFrom_first (by omega) starts, List.nil_append,
    decodeFrom_more (by omega) inside (by simp), second,
    decodeFrom_more (by omega) (by dsimp only; omega) (by simp), third,
    decodeFrom_last (by omega) (by dsimp only; omega) rfl, whole]

end Characters

theorem decodeFrom_encode (c : Char) (bytes : List UInt8) :
    decodeFrom none (String.utf8EncodeChar c ++ bytes) = some c :: decodeFrom none bytes := by
  have valid : c.val.toNat < 0xD800 ∨ 0xDFFF < c.val.toNat ∧ c.val.toNat < 0x110000 := c.valid
  have back : Char.ofNat c.val.toNat = c := Char.ofNat_toNat c
  unfold String.utf8EncodeChar
  dsimp only
  split
  · next one =>
    have starts : first c.val.toNat = ([some c], none) := by
      rw [first, if_pos (by omega), back]
    exact decodeFrom_first (by omega) starts bytes
  refine Eq.trans ?_ (congrArg (some · :: decodeFrom none bytes) back)
  split
  · next two => exact decodeFrom_two bytes (by omega) two
  split
  · next three => exact decodeFrom_three bytes (by omega) three (by omega)
  · exact decodeFrom_four bytes (by omega) (by omega)

theorem decode_bytes (cs : List Char) : decode (Text.bytes cs) = cs.map some := by
  unfold decode
  induction cs with
  | nil => rfl
  | cons c cs ih => rw [Text.bytes, List.flatMap_cons, decodeFrom_encode, ← Text.bytes, ih]; rfl

-- The bytes F0 90 80 could go on, but not with a letter.
example : decode [0x6F, 0xF0, 0x90, 0x80, 0x57] = [some 'o', none, some 'W'] := by decide

end Utf8

namespace RawText

@[simp]
theorem bytes_ofText (s : String) : (ofText s).bytes = Text.bytes s.toList :=
  Text.toUTF8_eq_bytes s

@[simp]
theorem lossy_ofText (s : String) : (ofText s).lossy = s := by
  rw [lossy, bytes_ofText, Utf8.decode_bytes, List.map_map]
  exact (congrArg String.ofList (List.map_id _)).trans String.ofList_toList

theorem text?_eq_some_iff {r : RawText} {s : String} : r.text? = some s ↔ r = ofText s := by
  unfold text?
  split
  · next kept =>
    rw [Option.some.injEq]
    refine ⟨fun same => same ▸ kept.symm, ?_⟩
    rintro rfl
    exact lossy_ofText s
  · next other =>
    refine ⟨nofun, ?_⟩
    rintro rfl
    exact absurd (congrArg ofText (lossy_ofText s)) other

@[simp]
theorem text?_ofText (s : String) : (ofText s).text? = some s := text?_eq_some_iff.2 rfl

@[simp]
theorem ofText_inj {s t : String} : ofText s = ofText t ↔ s = t := by
  refine ⟨fun same => ?_, congrArg ofText⟩
  rw [← lossy_ofText s, same, lossy_ofText]

def IsText (r : RawText) : Prop := ∃ s, r = ofText s

theorem isText_ofText (s : String) : (ofText s).IsText := ⟨s, rfl⟩

theorem isText_iff {r : RawText} : r.IsText ↔ r.text?.isSome = true := by
  simp only [IsText, Option.isSome_iff_exists, text?_eq_some_iff]

instance (r : RawText) : Decidable r.IsText := decidable_of_iff _ isText_iff.symm

theorem IsText.eq_of_lossy {r r' : RawText} (text : r.IsText) (text' : r'.IsText)
    (alike : r.lossy = r'.lossy) : r = r' := by
  obtain ⟨s, rfl⟩ := text
  obtain ⟨t, rfl⟩ := text'
  rw [lossy_ofText, lossy_ofText] at alike
  rw [alike]

end RawText

end CodeOutline
