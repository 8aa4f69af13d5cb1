import CodeOutline.Proofs.Less.Segments
import CodeOutline.Proofs.Text.Bytes
import CodeOutline.Proofs.Text.Occurrence
import Mathlib.Data.List.Forall2

/-!
Blanking keeps the bytes of a text in their places. The scan can go byte by byte, since only ASCII
characters lead it, and what it leaves is text again, in which it finds no comment any more.
-/

set_option autoImplicit false

namespace CodeOutline.Analysis.Less

open Text (bytes byteChar byteChars)

variable {s : Context} {b : UInt8} {bs : List UInt8} {c : Char} {cs : List Char} {depth n : Nat}

def blankByte (b : UInt8) : UInt8 := if b = 10 then b else 32

/-- The scan of bytes one by one, each of them taken for a character. -/
def blankBytesFrom (s : Context) (skip : Nat) : List UInt8 → List UInt8
  | [] => []
  | b :: bs =>
    match skip with
    | n + 1 => blankByte b :: blankBytesFrom s n bs
    | 0 =>
      match commentAt? s ((b :: bs).map byteChar) with
      | some (n + 1) => blankByte b :: blankBytesFrom s n bs
      | _ => b :: blankBytesFrom (s.next (byteChar b)) 0 bs

def blankBytes (bs : List UInt8) : List UInt8 := blankBytesFrom (.plain 0) 0 bs

theorem forall₂_blankBytesFrom (s : Context) (skip : Nat) (bs : List UInt8) :
    List.Forall₂ (fun b d => d = b ∨ d = 32 ∧ b ≠ 10) bs (blankBytesFrom s skip bs) := by
  have blank (b : UInt8) : blankByte b = b ∨ blankByte b = 32 ∧ b ≠ 10 := by
    unfold blankByte
    split
    · exact .inl rfl
    · next other => exact .inr ⟨rfl, other⟩
  induction bs generalizing s skip with
  | nil => exact .nil
  | cons b bs ih =>
    unfold blankBytesFrom
    split
    · exact .cons (blank b) (ih _ _)
    · split
      · exact .cons (blank b) (ih _ _)
      · exact .cons (.inl rfl) (ih _ _)

/-! Comments -/

theorem commentLength?_of_head (depth : Nat) (other : cs.head? ≠ some '/') :
    commentLength? depth cs = none := by
  unfold commentLength?
  split
  · exact absurd rfl other
  · exact absurd rfl other
  · rfl

theorem commentLength?_of_second (depth : Nat) (star : cs.head? ≠ some '*')
    (slash : cs.head? ≠ some '/') : commentLength? depth ('/' :: cs) = none := by
  unfold commentLength?
  split
  · next same =>
    obtain ⟨-, rfl⟩ := List.cons.inj same
    exact absurd rfl star
  · next same =>
    obtain ⟨-, rfl⟩ := List.cons.inj same
    exact absurd rfl slash
  · rfl

/-- A comment is as long among the bytes as its own bytes. The cases are those of the first two
characters, which are the same among the bytes. -/
theorem commentLength?_byteChars (depth : Nat) (cs : List Char) :
    commentLength? depth (byteChars cs) =
      (commentLength? depth cs).map (fun n => (bytes (cs.take n)).length) := by
  have length (cs : List Char) : (byteChars cs).length = (bytes cs).length := List.length_map _
  by_cases slash : cs.head? = some '/'
  · obtain ⟨cs, rfl⟩ := List.head?_eq_some_iff.1 slash
    have first := Text.byteChars_cons_of_ascii (by decide : '/'.toNat < 128) cs
    by_cases star : cs.head? = some '*'
    · obtain ⟨cs, rfl⟩ := List.head?_eq_some_iff.1 star
      rw [first, Text.byteChars_cons_of_ascii (by decide), commentLength?, commentLength?,
        Text.cutFirst?_byteChars (by simp)]
      cases cut : Text.cutFirst? ['*', '/'] cs with
      | none => simp [← length, Text.byteChars_cons_of_ascii]
      | some parts =>
        obtain ⟨before, after⟩ := parts
        have whole : '/' :: '*' :: cs = '/' :: '*' :: (before ++ ['*', '/']) ++ after := by
          simp [← Text.append_of_cutFirst? cut]
        have comment : ('/' :: '*' :: cs).take (before.length + 4) =
            '/' :: '*' :: (before ++ ['*', '/']) := by
          rw [whole]
          exact List.take_left' (by simp)
        simp [comment, ← length, Text.byteChars_cons_of_ascii, Text.byteChars_append]
    by_cases again : cs.head? = some '/'
    · obtain ⟨cs, rfl⟩ := List.head?_eq_some_iff.1 again
      have both : byteChars ('/' :: '/' :: cs) = '/' :: '/' :: byteChars cs := by
        rw [first, Text.byteChars_cons_of_ascii (by decide)]
      have line := List.prefix_iff_eq_take.1
        (List.takeWhile_prefix (l := '/' :: '/' :: cs) (· != '\n'))
      rw [both, commentLength?, commentLength?]
      split
      · rw [Option.map_some, ← line, ← length, ← Text.takeWhile_byteChars (by decide), both]
      · rfl
    · rw [first, commentLength?_of_second depth star again, commentLength?_of_second]
      · rfl
      · rwa [ne_eq, Text.head?_byteChars (by decide)]
      · rwa [ne_eq, Text.head?_byteChars (by decide)]
  · rw [commentLength?_of_head depth slash, commentLength?_of_head]
    · rfl
    · rwa [ne_eq, Text.head?_byteChars (by decide)]

theorem commentAt?_byteChars (s : Context) (cs : List Char) :
    commentAt? s (byteChars cs) =
      (commentAt? s cs).map (fun n => (bytes (cs.take n)).length) := by
  cases s with
  | plain depth => exact commentLength?_byteChars depth cs
  | quoted mark isEscaped depth => rfl

theorem blankBytesFrom_skip (s : Context) (n : Nat) (bs : List UInt8) :
    blankBytesFrom s n bs = (bs.take n).map blankByte ++ blankBytesFrom s 0 (bs.drop n) := by
  induction n generalizing bs with
  | zero => rfl
  | succ n ih =>
    cases bs with
    | nil => rfl
    | cons b bs =>
      rw [blankBytesFrom, ih, List.take_succ_cons, List.map_cons, List.drop_succ_cons]
      rfl

theorem blankBytesFrom_comment (found : commentAt? s (bs.map byteChar) = some (n + 1)) :
    blankBytesFrom s 0 bs =
      (bs.take (n + 1)).map blankByte ++ blankBytesFrom s 0 (bs.drop (n + 1)) := by
  cases bs with
  | nil => cases s <;> cases found
  | cons b bs =>
    rw [blankBytesFrom, found]
    dsimp only
    rw [blankBytesFrom_skip, List.take_succ_cons, List.map_cons, List.drop_succ_cons]
    rfl

theorem blankBytesFrom_code (other : ∀ n, commentAt? s ((b :: bs).map byteChar) ≠ some (n + 1)) :
    blankBytesFrom s 0 (b :: bs) = b :: blankBytesFrom (s.next (byteChar b)) 0 bs := by
  rw [blankBytesFrom]
  split
  · next n found => exact absurd found (other n)
  · rfl

/-- The bytes of spaces in place of a character are blanked bytes of it. Only the line feed has
its byte. -/
theorem bytes_blanked (c : Char) :
    bytes (blanked c) = (String.utf8EncodeChar c).map blankByte := by
  by_cases feed : c = '\n'
  · subst feed
    decide
  have others : ∀ b ∈ String.utf8EncodeChar c, b ≠ 10 := by
    rintro b member rfl
    by_cases ascii : c.toNat < 128
    · rw [Text.encode_of_ascii ascii, List.mem_singleton] at member
      have same := congrArg UInt8.toNat member
      rw [UInt8.toNat_ofNat', Nat.mod_eq_of_lt (by omega)] at same
      exact feed (Char.toNat_inj.1 same.symm)
    · exact absurd (Text.high_of_mem_encode (Nat.not_lt.1 ascii) member) (by decide)
  have spaces : bytes (List.replicate c.utf8Size ' ') = List.replicate c.utf8Size 32 := by
    generalize c.utf8Size = size
    induction size with
    | zero => rfl
    | succ size ih => rw [List.replicate_succ, bytes, List.flatMap_cons, ← bytes, ih]; rfl
  have blank : (String.utf8EncodeChar c).map blankByte = List.replicate c.utf8Size 32 := by
    rw [List.eq_replicate_iff, List.length_map, String.length_utf8EncodeChar, List.forall_mem_map]
    exact ⟨rfl, fun b member => if_neg (others b member)⟩
  rw [blanked, if_neg feed, spaces, blank]

theorem bytes_flatMap_blanked (cs : List Char) :
    bytes (cs.flatMap blanked) = (bytes cs).map blankByte := by
  induction cs with
  | nil => rfl
  | cons c cs ih =>
    rw [List.flatMap_cons, Text.bytes_append, ih, bytes_blanked, bytes, bytes, List.flatMap_cons,
      List.map_append]

/-! Characters outside of comments -/

def Context.IsRegular : Context → Prop
  | .plain _ => True
  | .quoted mark _ _ => mark.toNat < 128

theorem Context.IsRegular.next (regular : s.IsRegular) (c : Char) : (s.next c).IsRegular := by
  cases s with
  | plain depth =>
    unfold Context.next
    dsimp only
    split
    · next mark =>
      rw [Bool.or_eq_true, decide_eq_true_iff, decide_eq_true_iff] at mark
      rcases mark with rfl | rfl
      · exact (by decide : '"'.toNat < 128)
      · exact (by decide : '\''.toNat < 128)
    · repeat' split
      all_goals trivial
  | quoted mark isEscaped depth =>
    unfold Context.next
    dsimp only
    repeat' split
    all_goals first | exact regular | trivial

def Context.settled : Context → Context
  | .plain depth => .plain depth
  | .quoted mark _ depth => .quoted mark false depth

theorem Context.next_of_high (regular : s.IsRegular) (high : 128 ≤ c.toNat) :
    s.next c = s.settled := by
  have other {d : Char} : d.toNat < 128 → c ≠ d := Text.ne_of_high high
  cases s with
  | plain depth =>
    simp [Context.next, Context.settled, other (by decide : '"'.toNat < 128),
      other (by decide : '\''.toNat < 128), other (by decide : '('.toNat < 128),
      other (by decide : ')'.toNat < 128)]
  | quoted mark isEscaped depth =>
    cases isEscaped with
    | true => rfl
    | false =>
      simp [Context.next, Context.settled, other (by decide : '\\'.toNat < 128), other regular]

theorem commentAt?_of_head (s : Context) (other : cs.head? ≠ some '/') :
    commentAt? s cs = none := by
  cases s with
  | plain depth => exact commentLength?_of_head depth other
  | quoted mark isEscaped depth => rfl

theorem blankBytesFrom_of_high (regular : s.IsRegular) {front : List UInt8} (filled : front ≠ [])
    (high : ∀ b ∈ front, 128 ≤ b.toNat) (bs : List UInt8) :
    blankBytesFrom s 0 (front ++ bs) = front ++ blankBytesFrom s.settled 0 bs := by
  induction front generalizing s with
  | nil => exact absurd rfl filled
  | cons b front ih =>
    rw [List.forall_mem_cons] at high
    have large : 128 ≤ (byteChar b).toNat := by rw [Text.toNat_byteChar]; exact high.1
    have code (n : Nat) : commentAt? s ((b :: (front ++ bs)).map byteChar) ≠ some (n + 1) := by
      rw [commentAt?_of_head s]
      · nofun
      rw [List.map_cons, List.head?_cons, ne_eq, Option.some.injEq]
      intro slash
      exact absurd (slash ▸ large) (by decide)
    rw [List.cons_append, blankBytesFrom_code code,
      Context.next_of_high regular large]
    cases front with
    | nil => rfl
    | cons b' front =>
      have again : s.settled.settled = s.settled := by cases s <;> rfl
      have still : s.settled.IsRegular := by cases s <;> exact regular
      rw [ih still (List.cons_ne_nil _ _) high.2, again]
      rfl

theorem blankBytesFrom_bytes (regular : s.IsRegular) (cs : List Char) :
    blankBytesFrom s 0 (bytes cs) = bytes (blankFrom s 0 cs) := by
  fun_induction segments s cs with
  | case1 => rfl
  | case2 s c cs n found ih =>
    have parts : bytes (c :: cs) = bytes (c :: cs.take n) ++ bytes (cs.drop n) := by
      rw [← Text.bytes_append, List.cons_append, List.take_append_drop]
    have comment := commentAt?_byteChars s (c :: cs)
    rw [found, Option.map_some, List.take_succ_cons] at comment
    cases size : (bytes (c :: cs.take n)).length with
    | zero =>
      rw [List.length_eq_zero_iff, bytes, List.flatMap_cons] at size
      exact absurd (List.append_eq_nil_iff.1 size).1 String.utf8EncodeChar_ne_nil
    | succ k =>
      rw [size] at comment
      rw [blankBytesFrom_comment comment, parts, List.take_left' size, List.drop_left' size,
        ih regular, ← bytes_flatMap_blanked, ← Text.bytes_append, blankFrom_comment found]
  | case3 s c cs other ih =>
    rw [blankFrom_code other]
    by_cases ascii : c.toNat < 128
    · have code (n : Nat) : commentAt? s ((bytes (c :: cs)).map byteChar) ≠ some (n + 1) := by
        intro found
        rw [← byteChars, commentAt?_byteChars] at found
        obtain ⟨k, length, size⟩ := Option.map_eq_some_iff.1 found
        cases k with
        | zero => cases size
        | succ k => exact other k length
      rw [Text.bytes_cons_of_ascii ascii] at code ⊢
      rw [blankBytesFrom_code code, Text.byteChar_of_ascii ascii, ih (regular.next c),
        Text.bytes_cons_of_ascii ascii]
    · have high := Nat.not_lt.1 ascii
      rw [bytes, List.flatMap_cons, ← bytes, blankBytesFrom_of_high regular
        String.utf8EncodeChar_ne_nil (fun b => Text.high_of_mem_encode high),
        ← Context.next_of_high regular high, ih (regular.next c)]
      rfl

/-! Blanking once more -/

theorem exists_commentLength?_iff :
    (∃ n, commentLength? depth cs = some (n + 1)) ↔
      (∃ rest, cs = '/' :: '*' :: rest) ∨ ((∃ rest, cs = '/' :: '/' :: rest) ∧ depth = 0) := by
  constructor
  · rintro ⟨n, found⟩
    unfold commentLength? at found
    split at found
    · next rest => exact .inl ⟨rest, rfl⟩
    · next rest =>
      split at found
      · next top => exact .inr ⟨⟨rest, rfl⟩, top⟩
      · cases found
    · cases found
  · rintro (⟨rest, rfl⟩ | ⟨⟨rest, rfl⟩, rfl⟩)
    · rw [commentLength?]
      cases Text.cutFirst? ['*', '/'] rest with
      | none => exact ⟨_, rfl⟩
      | some parts => exact ⟨_, rfl⟩
    · exact ⟨_, rfl⟩

theorem head?_of_blankFrom (solid : Text.isBlank c = false)
    (begins : (blankFrom s 0 cs).head? = some c) : cs.head? = some c := by
  cases cs with
  | nil => cases begins
  | cons d cs =>
    rw [blankFrom_cons] at begins
    split at begins
    · have filled : blanked d ≠ [] := by
        unfold blanked
        split
        · exact List.cons_ne_nil _ _
        · simpa using d.utf8Size_pos.ne'
      obtain ⟨e, rest, spaces⟩ := List.exists_cons_of_ne_nil filled
      rw [spaces, List.cons_append, List.head?_cons, Option.some.injEq] at begins
      subst begins
      have blank := isBlank_of_mem_blanked (spaces ▸ List.mem_cons_self)
      rw [blank] at solid
      cases solid
    · exact begins

theorem commentAt?_blankFrom (other : ∀ n, commentAt? s (c :: cs) ≠ some (n + 1)) (n : Nat) :
    commentAt? s (c :: blankFrom (s.next c) 0 cs) ≠ some (n + 1) := by
  intro found
  cases s with
  | quoted mark isEscaped depth => cases found
  | plain depth =>
    have none_ : ¬ ∃ n, commentLength? depth (c :: cs) = some (n + 1) := fun ⟨n, found⟩ =>
      other n found
    refine none_ (exists_commentLength?_iff.2 ?_)
    refine (exists_commentLength?_iff.1 ⟨n, found⟩).imp ?_ (And.imp_left ?_)
    · rintro ⟨rest, begins⟩
      obtain ⟨rfl, begins⟩ := List.cons.inj begins
      obtain ⟨rest', rfl⟩ := List.head?_eq_some_iff.1
        (head?_of_blankFrom (by decide) (congrArg List.head? begins))
      exact ⟨rest', rfl⟩
    · rintro ⟨rest, begins⟩
      obtain ⟨rfl, begins⟩ := List.cons.inj begins
      obtain ⟨rest', rfl⟩ := List.head?_eq_some_iff.1
        (head?_of_blankFrom (by decide) (congrArg List.head? begins))
      exact ⟨rest', rfl⟩

theorem blankFrom_append_of_blank {front : List Char} (blank : ∀ d ∈ front, d = ' ' ∨ d = '\n')
    (cs : List Char) :
    blankFrom (.plain depth) 0 (front ++ cs) = front ++ blankFrom (.plain depth) 0 cs := by
  induction front with
  | nil => rfl
  | cons d front ih =>
    rw [List.forall_mem_cons] at blank
    have other : (d :: (front ++ cs)).head? ≠ some '/' := by
      rcases blank.1 with rfl | rfl <;> simp
    have stays : Context.next (.plain depth) d = .plain depth := by
      rcases blank.1 with rfl | rfl <;> rfl
    rw [List.cons_append, blankFrom_code (by simp [commentAt?_of_head _ other]), stays,
      ih blank.2, List.cons_append]

theorem eq_of_mem_blanked {d : Char} (member : d ∈ blanked c) : d = ' ' ∨ d = '\n' := by
  unfold blanked at member
  split at member
  · next feed => exact .inr (by rw [List.mem_singleton.1 member, feed])
  · exact .inl (List.eq_of_mem_replicate member)

/-- The induction is on the characters and comments of the text: a comment is blank afterwards, and
behind a character the scan finds the context that it found before. -/
theorem blankFrom_blankFrom (s : Context) (cs : List Char) :
    blankFrom s 0 (blankFrom s 0 cs) = blankFrom s 0 cs := by
  fun_induction segments s cs with
  | case1 => rfl
  | case2 s c cs n found ih =>
    cases s with
    | quoted mark isEscaped depth => cases found
    | plain depth =>
      have blank : ∀ d ∈ (c :: cs.take n).flatMap blanked, d = ' ' ∨ d = '\n' := by
        intro d member
        obtain ⟨e, -, spaced⟩ := List.mem_flatMap.1 member
        exact eq_of_mem_blanked spaced
      rw [blankFrom_comment found, blankFrom_append_of_blank blank, ih]
  | case3 s c cs other ih =>
    rw [blankFrom_code other, blankFrom_code (commentAt?_blankFrom other), ih]

/-- Blanking the comments of any text leaves text with the same bytes in the same places, but for
spaces in place of some that are no line feeds. It is the same whether characters or bytes are
gone through, and there is nothing left to blank. -/
theorem blankComments_keeps_bytes (source : String) :
    let text := String.ofList (blankComments source.toList)
    (blankBytes source.toUTF8.data.toList).toByteArray = text.toUTF8 ∧
      text.utf8ByteSize = source.utf8ByteSize ∧
      (∀ i : Nat, text.toUTF8.data[i]? = some 10 ↔ source.toUTF8.data[i]? = some 10) ∧
      (∀ (i : Nat) (b : UInt8), text.toUTF8.data[i]? = some b →
        source.toUTF8.data[i]? = some b ∨ b = 32) ∧
      String.ofList (blankComments text.toList) = text := by
  intro text
  have regular : Context.IsRegular (.plain 0) := trivial
  have scanned : blankBytes source.toUTF8.data.toList = text.toUTF8.data.toList := by
    rw [Text.toUTF8_eq_bytes, Text.toUTF8_eq_bytes, String.toList_ofList]
    exact blankBytesFrom_bytes regular _
  have kept := forall₂_blankBytesFrom (.plain 0) 0 source.toUTF8.data.toList
  rw [← blankBytes, scanned] at kept
  have size : text.toUTF8.data.size = source.toUTF8.data.size := kept.length_eq.symm
  have each {i : Nat} {b : UInt8} (there : text.toUTF8.data[i]? = some b) :
      ∃ a, source.toUTF8.data[i]? = some a ∧ (b = a ∨ b = 32 ∧ a ≠ 10) := by
    obtain ⟨inside, rfl⟩ := Array.getElem?_eq_some_iff.1 there
    have within : i < source.toUTF8.data.size := size ▸ inside
    exact ⟨_, Array.getElem?_eq_getElem within, kept.get within inside⟩
  refine ⟨?_, size, fun i => ⟨fun there => ?_, fun there => ?_⟩, fun i b there => ?_, ?_⟩
  · rw [scanned]
    exact ByteArray.ext (List.data_toByteArray)
  · obtain ⟨a, here, rfl | ⟨space, -⟩⟩ := each there
    · exact here
    · cases space
  · obtain ⟨inside, -⟩ := Array.getElem?_eq_some_iff.1 there
    have found := Array.getElem?_eq_getElem (size ▸ inside : i < text.toUTF8.data.size)
    obtain ⟨a, here, rfl | ⟨-, other⟩⟩ := each found
    · rw [found, ← here, there]
    · exact absurd (Option.some.inj (here.symm.trans there)) other
  · obtain ⟨a, here, rfl | ⟨space, -⟩⟩ := each there
    · exact .inl here
    · exact .inr space
  · rw [String.toList_ofList]
    exact congrArg String.ofList (blankFrom_blankFrom _ _)

/-- A character of two bytes in a comment leaves two spaces. -/
example : blankComments "a /* ü */ b".toList = "a          b".toList := by decide

end CodeOutline.Analysis.Less
