import CodeOutline.Proofs.Less.Places
import CodeOutline.Proofs.Text.Bytes
import Mathlib.Data.List.Chain

/-!
A style sheet scanned byte by byte, one statement at a call. The calls part any source without a
gap: each begins behind the mark that ended the one before. In a text all of them begin and end
between two characters, and they tell the statements that the scan by characters finds.
-/

set_option autoImplicit false

namespace CodeOutline.Analysis.Less

open Syntax (Place)
open Text (bytes byteChar byteChars)

/-! ## The scan by bytes -/

inductive Hop
  | stop (ending : Ending)
  | go (pos depth : Nat) (quote : Option Char)

def closingFrom (source : List UInt8) (pos : Nat) : Nat :=
  pos + ((source.drop pos).takeWhile (fun b => byteChar b != '\x7d')).length

def isBehindAt (source : List UInt8) (pos : Nat) : Bool :=
  0 < pos && source[pos - 1]?.map byteChar == some '@'

/-- What the scan does at an index where the byte stands that is taken for the character. Inside
quotes a backslash takes the byte behind it along, and an interpolation is passed over as a whole:
either may lead over the end of the source. -/
def hop (source : List UInt8) (pos depth : Nat) (quote : Option Char) (c : Char) : Hop :=
  match quote with
  | some mark =>
    if c = '\\' then .go (pos + 2) depth quote
    else if c = mark then .go (pos + 1) depth none
    else .go (pos + 1) depth quote
  | none =>
    if c = '"' || c = '\'' then .go (pos + 1) depth (some c)
    else if c = '(' then .go (pos + 1) (depth + 1) none
    else if c = ')' then .go (pos + 1) (depth - 1) none
    else if c = '\x7b' && isBehindAt source pos then .go (closingFrom source pos + 1) depth none
    else
      match if depth = 0 then ending? c else none with
      | some ending => .stop ending
      | none => .go (pos + 1) depth none

section Hops

variable {source : List UInt8} {pos pos' depth depth' : Nat} {quote quote' : Option Char}
  {c : Char} {ending : Ending}

theorem lt_of_hop (hopped : hop source pos depth quote c = .go pos' depth' quote') :
    pos < pos' := by
  have closing : pos ≤ closingFrom source pos := Nat.le_add_right _ _
  unfold hop at hopped
  grind

theorem ending?_of_hop (hopped : hop source pos depth quote c = .stop ending) :
    ending? c = some ending := by
  unfold hop at hopped
  grind

end Hops

/-- The index of the mark that ends the statement, or the length of the source. -/
def scan (source : List UInt8) (pos depth : Nat) (quote : Option Char) : Nat × Ending :=
  if inside : pos < source.length then
    match _hopped : hop source pos depth quote (byteChar source[pos]) with
    | .stop ending => (pos, ending)
    | .go pos' depth' quote' => scan source pos' depth' quote'
  else (source.length, .eof)
termination_by source.length - pos
decreasing_by
  have := lt_of_hop ‹_›
  omega

/-- A source and the index that its scan has come to. -/
structure Scanner where
  source : List UInt8
  pos : Nat := 0

/-- What one call tells: the bytes of a statement, the index of the first one, and what ends it. -/
structure Call where
  text : List UInt8
  offset : Nat
  ending : Ending
deriving DecidableEq, Repr

/-- One call: the statement from the scanner's index on, and the scanner behind its mark. -/
def Scanner.statement (s : Scanner) : Call × Scanner :=
  let found := scan s.source s.pos 0 none
  ({ text := (s.source.drop s.pos).take (found.1 - s.pos), offset := s.pos, ending := found.2 },
    { s with pos := if found.2 = .eof then found.1 else found.1 + 1 })

section Scans

variable {source : List UInt8} {pos pos' depth depth' : Nat} {quote quote' : Option Char}
  {b : UInt8} {ending : Ending}

theorem scan_stop (there : source[pos]? = some b)
    (hopped : hop source pos depth quote (byteChar b) = .stop ending) :
    scan source pos depth quote = (pos, ending) := by
  obtain ⟨inside, rfl⟩ := List.getElem?_eq_some_iff.1 there
  rw [scan, dif_pos inside]
  split
  · next stopped => rw [hopped] at stopped; rw [Hop.stop.inj stopped]
  · next went => rw [hopped] at went; cases went

theorem scan_go (there : source[pos]? = some b)
    (hopped : hop source pos depth quote (byteChar b) = .go pos' depth' quote') :
    scan source pos depth quote = scan source pos' depth' quote' := by
  obtain ⟨inside, rfl⟩ := List.getElem?_eq_some_iff.1 there
  rw [scan, dif_pos inside]
  split
  · next stopped => rw [hopped] at stopped; cases stopped
  · next went =>
    rw [hopped] at went
    obtain ⟨rfl, rfl, rfl⟩ := Hop.go.inj went
    rfl

theorem scan_beyond (beyond : source.length ≤ pos) :
    scan source pos depth quote = (source.length, .eof) := by
  rw [scan, dif_neg (Nat.not_lt.2 beyond)]

theorem scan_cases (source : List UInt8) (pos depth : Nat) (quote : Option Char) :
    scan source pos depth quote = (source.length, .eof) ∨
      ∃ stop b ending, scan source pos depth quote = (stop, ending) ∧ pos ≤ stop ∧
        source[stop]? = some b ∧ ending? (byteChar b) = some ending := by
  fun_induction scan source pos depth quote with
  | case1 pos depth quote inside ending hopped =>
    exact .inr ⟨pos, source[pos], ending, rfl, Nat.le_refl _, List.getElem?_eq_getElem inside,
      ending?_of_hop hopped⟩
  | case2 pos depth quote inside pos' depth' quote' hopped ih =>
    refine ih.imp_right ?_
    rintro ⟨stop, b, ending, found, later, there, marks⟩
    exact ⟨stop, b, ending, found, (lt_of_hop hopped).le.trans later, there, marks⟩
  | case3 => exact .inl rfl

end Scans

/-- A call tells the rest of the source, or a statement up to a mark; then the scanner goes on
behind the mark. -/
theorem Scanner.statement_cases (s : Scanner) :
    s.statement = (⟨s.source.drop s.pos, s.pos, .eof⟩, ⟨s.source, s.source.length⟩) ∨
      ∃ text b rest ending, s.source.drop s.pos = text ++ b :: rest ∧
        ending? (byteChar b) = some ending ∧
        s.statement = (⟨text, s.pos, ending⟩, ⟨s.source, s.pos + text.length + 1⟩) := by
  rcases scan_cases s.source s.pos 0 none with found | ⟨stop, b, ending, found, later, there, marks⟩
  · have all : (s.source.drop s.pos).take (s.source.length - s.pos) = s.source.drop s.pos :=
      List.take_of_length_le (by simp)
    refine .inl ?_
    simp only [statement, found, all, if_true]
  · obtain ⟨low, rfl⟩ := List.getElem?_eq_some_iff.1 there
    have other : ending ≠ .eof := by
      rintro rfl
      exact ending?_ne_eof _ marks
    have size : ((s.source.drop s.pos).take (stop - s.pos)).length = stop - s.pos := by
      rw [List.length_take, List.length_drop]
      omega
    have behind : s.pos + (stop - s.pos) = stop := Nat.add_sub_cancel' later
    refine .inr ⟨(s.source.drop s.pos).take (stop - s.pos), s.source[stop],
      s.source.drop (stop + 1), ending, ?_, marks, ?_⟩
    · have split := List.take_append_drop (stop - s.pos) (s.source.drop s.pos)
      rwa [List.drop_drop, behind, List.drop_eq_getElem_cons low, eq_comm] at split
    · simp only [statement, found, if_neg other, size, behind]

theorem Scanner.lt_of_goesOn {s : Scanner} (goesOn : s.statement.1.ending ≠ .eof) :
    s.statement.2.source = s.source ∧ s.pos < s.statement.2.pos ∧
      s.statement.2.pos ≤ s.source.length := by
  rcases s.statement_cases with last | ⟨text, b, rest, ending, parts, -, more⟩
  · rw [last] at goesOn
    exact absurd rfl goesOn
  · have size := congrArg List.length parts
    simp only [List.length_drop, List.length_append, List.length_cons] at size
    rw [more]
    exact ⟨rfl, by dsimp only; omega, by dsimp only; omega⟩

/-- The statements from the scanner's index on, one call after the other up to the first that the
end of the source ends. -/
def Scanner.calls (s : Scanner) : List Call :=
  if s.statement.1.ending = .eof then [s.statement.1]
  else s.statement.1 :: s.statement.2.calls
termination_by s.source.length - s.pos
decreasing_by
  obtain ⟨same, later, inside⟩ := Scanner.lt_of_goesOn ‹_›
  rw [same]
  omega

/-! ## Nothing is lost -/

/-- The character that is the mark; the end of the text has none. -/
def Ending.mark : Ending → List Char
  | .semicolon => [';']
  | .opening => ['\x7b']
  | .closing => ['\x7d']
  | .eof => []

/-- The bytes of the statement and of its mark. -/
def Call.written (call : Call) : List UInt8 := call.text ++ bytes call.ending.mark

/-- The calls part the source from an index on: each tells what stands in front of a mark, and the
next one begins behind that mark. -/
inductive Parts (source : List UInt8) : Nat → List Call → Prop
  | last (pos : Nat) : Parts source pos [⟨source.drop pos, pos, .eof⟩]
  | more {pos : Nat} {text rest : List UInt8} {b : UInt8} {ending : Ending} {calls : List Call}
      (split : source.drop pos = text ++ b :: rest) (marks : ending? (byteChar b) = some ending)
      (later : Parts source (pos + text.length + 1) calls) :
      Parts source pos (⟨text, pos, ending⟩ :: calls)

theorem Scanner.calls_part (s : Scanner) : Parts s.source s.pos s.calls := by
  fun_induction Scanner.calls s with
  | case1 s ends =>
    rcases s.statement_cases with last | ⟨text, b, rest, ending, parts, marks, more⟩
    · rw [last]
      exact .last s.pos
    · rw [more] at ends
      obtain rfl : ending = .eof := ends
      exact absurd marks (ending?_ne_eof _)
  | case2 s goesOn ih =>
    rcases s.statement_cases with last | ⟨text, b, rest, ending, parts, marks, more⟩
    · rw [last] at goesOn
      exact absurd rfl goesOn
    · rw [more] at ih ⊢
      exact .more parts marks ih

theorem mark_of_ending? {c : Char} {ending : Ending} (marks : ending? c = some ending) :
    ending.mark = [c] ∧ c.toNat < 128 := by
  unfold ending? at marks
  split at marks <;> first
    | exact Option.some.inj marks ▸ ⟨rfl, by decide⟩
    | cases marks

theorem bytes_mark {b : UInt8} {ending : Ending} (marks : ending? (byteChar b) = some ending) :
    bytes ending.mark = [b] := by
  obtain ⟨mark, ascii⟩ := mark_of_ending? marks
  rw [mark, Text.bytes_cons_of_ascii ascii, Text.toNat_byteChar, UInt8.ofNat_toNat]
  rfl

namespace Parts

variable {source : List UInt8} {pos : Nat} {calls : List Call}

theorem flatMap_written (parts : Parts source pos calls) :
    calls.flatMap Call.written = source.drop pos := by
  induction parts with
  | last pos => simp [Call.written, Ending.mark, bytes]
  | @more pos text rest b ending calls split marks _ ih =>
    have behind : source.drop (pos + text.length + 1) = rest := by
      rw [Nat.add_assoc, ← List.drop_drop, split]
      simp
    rw [List.flatMap_cons, ih, behind, Call.written, bytes_mark marks, split, List.append_assoc]
    rfl

theorem head_offset (parts : Parts source pos calls) : ∀ call ∈ calls.head?, call.offset = pos := by
  cases parts <;> simp

theorem isChain (parts : Parts source pos calls) :
    calls.IsChain (fun call next => next.offset = call.offset + call.text.length + 1) := by
  induction parts with
  | last pos => exact .singleton _
  | more split marks later ih => exact List.isChain_cons.2 ⟨later.head_offset, ih⟩

theorem concat (parts : Parts source pos calls) : ∃ before last, calls = before ++ [last] ∧
    last.ending = .eof ∧ ∀ call ∈ before, call.ending ≠ .eof := by
  induction parts with
  | last pos => exact ⟨[], _, rfl, rfl, List.forall_mem_nil _⟩
  | @more pos text rest b ending calls split marks later ih =>
    obtain ⟨before, last, rfl, ends, others⟩ := ih
    refine ⟨⟨text, pos, ending⟩ :: before, last, rfl, ends, List.forall_mem_cons.2 ⟨?_, others⟩⟩
    rintro rfl
    exact ending?_ne_eof _ marks

theorem slice (parts : Parts source pos calls) : ∀ call ∈ calls,
    call.text = (source.drop call.offset).take call.text.length := by
  induction parts with
  | last pos => simp
  | more split marks later ih =>
    refine List.forall_mem_cons.2 ⟨?_, ih⟩
    rw [split, List.take_left]

end Parts

/-! ## The scan by characters finds the same -/

/-- The state fits the index: it knows whether an at sign stands in front, and quoted texts are
between quotation marks. -/
def ScanState.Fits (source : List UInt8) (pos : Nat) : ScanState → Prop
  | .plain isAfterAt => isBehindAt source pos = isAfterAt
  | .quoted mark _ => mark = '"' ∨ mark = '\''
  | .interpolated => True

/-- Where the scan by bytes goes on when the scan by states is in that state. What is escaped or
interpolated has been passed over already. -/
def resume (source : List UInt8) (s : ScanState) (pos depth : Nat) : Nat × Ending :=
  match s with
  | .plain _ => scan source pos depth none
  | .quoted mark isEscaped => scan source (if isEscaped then pos + 1 else pos) depth (some mark)
  | .interpolated => scan source (closingFrom source pos + 1) depth none

theorem resume_end (source : List UInt8) (s : ScanState) (depth : Nat) :
    resume source s source.length depth = (source.length, .eof) := by
  unfold resume
  split
  · exact scan_beyond (Nat.le_refl _)
  · refine scan_beyond ?_
    split <;> omega
  · exact scan_beyond (Nat.le_succ_of_le (Nat.le_add_right _ _))

theorem hop_next {source : List UInt8} {pos depth depth' : Nat} {isAfterAt : Bool} {s' : ScanState}
    {c : Char} (fits : isBehindAt source pos = isAfterAt)
    (moved : move (.plain isAfterAt) depth c = .next s' depth') :
    (∃ isBehind, s' = .plain isBehind ∧ hop source pos depth none c = .go (pos + 1) depth' none) ∨
      (s' = .quoted c false ∧ hop source pos depth none c = .go (pos + 1) depth' (some c)) ∨
      (s' = .interpolated ∧ c = '\x7b' ∧
        hop source pos depth none c = .go (closingFrom source pos + 1) depth' none) := by
  unfold move at moved
  unfold hop
  grind

theorem hop_quoted (source : List UInt8) (pos depth : Nat) (mark c : Char) :
    ∃ pos' quote', hop source pos depth (some mark) c = .go pos' depth quote' ∧
      resume source ((ScanState.quoted mark false).inner c) (pos + 1) depth =
        scan source pos' depth quote' := by
  unfold hop ScanState.inner
  dsimp only
  by_cases escapes : c = '\\'
  · rw [if_pos escapes, if_pos escapes]
    exact ⟨_, _, rfl, rfl⟩
  rw [if_neg escapes, if_neg escapes]
  split
  · exact ⟨_, _, rfl, rfl⟩
  · exact ⟨_, _, rfl, rfl⟩

section OneByte

variable {source : List UInt8} {pos depth depth' : Nat} {b : UInt8} {s s' : ScanState}
  {ending : Ending} (there : source[pos]? = some b)

include there

theorem isBehindAt_succ : isBehindAt source (pos + 1) = (byteChar b == '@') := by
  rw [isBehindAt, Nat.add_sub_cancel, there, decide_eq_true (Nat.succ_pos pos), Bool.true_and]
  rfl

theorem closingFrom_eq_self (closes : byteChar b = '\x7d') : closingFrom source pos = pos := by
  obtain ⟨inside, rfl⟩ := List.getElem?_eq_some_iff.1 there
  rw [closingFrom, List.drop_eq_getElem_cons inside, List.takeWhile_cons_of_neg (by simp [closes])]
  rfl

theorem closingFrom_succ (other : byteChar b ≠ '\x7d') :
    closingFrom source (pos + 1) = closingFrom source pos := by
  obtain ⟨inside, rfl⟩ := List.getElem?_eq_some_iff.1 there
  rw [closingFrom, closingFrom, List.drop_eq_getElem_cons inside,
    List.takeWhile_cons_of_pos (by simp [other]), List.length_cons]
  omega

theorem ScanState.Fits.next (fits : s.Fits source pos)
    (moved : move s depth (byteChar b) = .next s' depth') : s'.Fits source (pos + 1) := by
  have behind := isBehindAt_succ there
  unfold move ScanState.inner at moved
  grind [ScanState.Fits]

theorem resume_finish (fits : s.Fits source pos)
    (moved : move s depth (byteChar b) = .finish ending) :
    resume source s pos depth = (pos, ending) := by
  cases s with
  | quoted | interpolated => cases moved
  | plain isAfterAt =>
    refine scan_stop there ?_
    unfold move at moved
    unfold hop
    grind [ScanState.Fits]

theorem resume_next (fits : s.Fits source pos)
    (moved : move s depth (byteChar b) = .next s' depth') :
    resume source s pos depth = resume source s' (pos + 1) depth' := by
  cases s with
  | plain isAfterAt =>
    rcases hop_next fits moved with ⟨isBehind, rfl, hopped⟩ | ⟨rfl, hopped⟩ | ⟨rfl, brace, hopped⟩
    · exact scan_go there hopped
    · exact scan_go there hopped
    · have other : byteChar b ≠ '\x7d' := by
        rw [brace]
        decide
      rw [resume, resume, scan_go there hopped, closingFrom_succ there other]
  | quoted mark isEscaped =>
    obtain ⟨rfl, rfl⟩ := Move.next.inj moved
    cases isEscaped with
    | true => rfl
    | false =>
      obtain ⟨pos', quote', hopped, goesOn⟩ := hop_quoted source pos depth mark (byteChar b)
      exact (scan_go there hopped).trans goesOn.symm
  | interpolated =>
    obtain ⟨rfl, rfl⟩ := Move.next.inj moved
    by_cases closes : byteChar b = '\x7d'
    · simp only [resume, ScanState.inner, if_pos closes, closingFrom_eq_self there closes]
    · simp only [resume, ScanState.inner, if_neg closes, closingFrom_succ there closes]

end OneByte

/-! Characters of several bytes -/

def ScanState.settled : ScanState → ScanState
  | .plain _ => .plain false
  | .quoted mark _ => .quoted mark false
  | .interpolated => .interpolated

section SeveralBytes

variable {source : List UInt8} {pos depth : Nat} {c : Char} {s : ScanState}

theorem move_of_high (fits : s.Fits source pos) (high : 128 ≤ c.toNat) (depth : Nat) :
    move s depth c = .next s.settled depth := by
  have other {d : Char} : d.toNat < 128 → c ≠ d := Text.ne_of_high high
  have noMark : ending? c = none := by
    cases marks : ending? c with
    | none => rfl
    | some ending => exact absurd (mark_of_ending? marks).2 (Nat.not_lt.2 high)
  have quotes : c ≠ '"' ∧ c ≠ '\'' := ⟨other (by decide), other (by decide)⟩
  cases s with
  | plain isAfterAt =>
    simp [move, noMark, quotes, ScanState.settled, other (by decide : '('.toNat < 128),
      other (by decide : ')'.toNat < 128), other (by decide : '\x7b'.toNat < 128),
      other (by decide : '@'.toNat < 128)]
  | quoted mark isEscaped =>
    have noEnd : c ≠ mark := by rcases fits with rfl | rfl <;> simp [quotes]
    cases isEscaped <;>
      simp [move, ScanState.inner, ScanState.settled, noEnd, other (by decide : '\\'.toNat < 128)]
  | interpolated =>
    simp [move, ScanState.inner, ScanState.settled, other (by decide : '\x7d'.toNat < 128)]

theorem resume_of_high {front others back : List UInt8} (filled : others ≠ [])
    (high : ∀ b ∈ others, 128 ≤ b.toNat) (fits : s.Fits (front ++ others ++ back) front.length) :
    resume (front ++ others ++ back) s front.length depth =
        resume (front ++ others ++ back) s.settled (front ++ others).length depth ∧
      s.settled.Fits (front ++ others ++ back) (front ++ others).length := by
  induction others generalizing front s with
  | nil => exact absurd rfl filled
  | cons b others ih =>
    rw [List.forall_mem_cons] at high
    have large : 128 ≤ (byteChar b).toNat := by
      rw [Text.toNat_byteChar]
      exact high.1
    have there : (front ++ b :: others ++ back)[front.length]? = some b := by simp
    have moved := move_of_high fits large depth
    have first := resume_next there fits moved
    have still := fits.next there moved
    cases others with
    | nil =>
      rw [List.length_append]
      exact ⟨first, still⟩
    | cons b' others =>
      have again : s.settled.settled = s.settled := by cases s <;> rfl
      have parts : front ++ b :: b' :: others = front ++ [b] ++ b' :: others := by simp
      have one : (front ++ [b]).length = front.length + 1 := by simp
      rw [parts] at first still ⊢
      rw [← one] at first still
      obtain ⟨rest, fitting⟩ := ih (List.cons_ne_nil _ _) high.2 still
      rw [again] at rest fitting
      exact ⟨first.trans rest, fitting⟩

end SeveralBytes

section OneCharacter

variable {read rest : List Char} {depth depth' : Nat} {c : Char} {s s' : ScanState}
  {ending : Ending} (fits : s.Fits (bytes (read ++ c :: rest)) (bytes read).length)

theorem bytes_append_cons (read rest : List Char) (c : Char) :
    bytes (read ++ c :: rest) = bytes read ++ bytes [c] ++ bytes rest := by
  rw [← Text.bytes_append, ← Text.bytes_append, List.append_assoc, List.singleton_append]

theorem exists_byte_of_ascii (ascii : c.toNat < 128) : ∃ b, bytes [c] = [b] ∧ byteChar b = c :=
  ⟨_, Text.bytes_cons_of_ascii ascii [], Text.byteChar_of_ascii ascii⟩

include fits

theorem resume_char (moved : move s depth c = .next s' depth') :
    resume (bytes (read ++ c :: rest)) s (bytes read).length depth =
        resume (bytes (read ++ c :: rest)) s' (bytes (read ++ [c])).length depth' ∧
      s'.Fits (bytes (read ++ c :: rest)) (bytes (read ++ [c])).length := by
  rw [bytes_append_cons] at fits ⊢
  rw [Text.bytes_append read [c]]
  rcases Nat.lt_or_ge c.toNat 128 with ascii | high
  · obtain ⟨b, one, rfl⟩ := exists_byte_of_ascii ascii
    have there : (bytes read ++ bytes [byteChar b] ++ bytes rest)[(bytes read).length]? =
        some b := by
      simp [one]
    have size : (bytes read ++ bytes [byteChar b]).length = (bytes read).length + 1 := by
      simp [one]
    rw [size]
    exact ⟨resume_next there fits moved, fits.next there moved⟩
  · rw [move_of_high fits high] at moved
    obtain ⟨rfl, rfl⟩ := Move.next.inj moved
    have filled : bytes [c] ≠ [] := by simp [bytes]
    refine resume_of_high filled (fun b member => ?_) fits
    exact Text.high_of_mem_encode high (by simpa [bytes] using member)

theorem resume_mark (moved : move s depth c = .finish ending) :
    resume (bytes (read ++ c :: rest)) s (bytes read).length depth =
        ((bytes read).length, ending) ∧
      (bytes (read ++ [c])).length = (bytes read).length + 1 ∧
      (ScanState.plain false).Fits (bytes (read ++ c :: rest)) (bytes (read ++ [c])).length := by
  have marks := ending?_of_finish moved
  obtain ⟨b, one, rfl⟩ := exists_byte_of_ascii (mark_of_ending? marks).2
  have there : (bytes (read ++ byteChar b :: rest))[(bytes read).length]? = some b := by
    simp [bytes_append_cons, one]
  have size : (bytes (read ++ [byteChar b])).length = (bytes read).length + 1 := by
    simp [Text.bytes_append, one]
  refine ⟨resume_finish there fits moved, size, ?_⟩
  rw [size, ScanState.Fits, isBehindAt_succ there]
  unfold ending? at marks
  split at marks <;> simp_all

end OneCharacter

/-- The statement as a call tells it: its bytes, and those in front of it counted. -/
def Statement.call (whole : List Char) (s : Statement) : Call :=
  { text := bytes s.text, offset := (bytes (whole.take s.start.offset)).length, ending := s.ending }

theorem slice_bytes (before read rest : List Char) :
    ((bytes (before ++ read ++ rest)).drop (bytes before).length).take
      ((bytes (before ++ read)).length - (bytes before).length) = bytes read := by
  simp only [Text.bytes_append, List.append_assoc, List.drop_left, List.length_append,
    Nat.add_sub_cancel_left, List.take_left]

/-- The induction is on the characters ahead. `read` has been read of the statement that `before`
stands in front of. -/
theorem calls_statementsFrom {s : ScanState} {depth : Nat} {whole before read rest : List Char}
    (parts : whole = before ++ read ++ rest)
    (fits : s.Fits (bytes whole) (bytes (before ++ read)).length)
    (here : scan (bytes whole) (bytes before).length 0 none =
      resume (bytes whole) s (bytes (before ++ read)).length depth) :
    (Scanner.mk (bytes whole) (bytes before).length).calls =
      (statementsFrom s depth (.behind before) (.behind (before ++ read)) read.reverse rest).map
        (Statement.call whole) := by
  induction rest generalizing s depth before read with
  | nil =>
    have slice := slice_bytes before read []
    have front : whole.take before.length = before := by simp [parts]
    rw [← parts] at slice
    rw [List.append_nil] at parts
    rw [← parts] at slice here
    rw [resume_end] at here
    have told : Scanner.statement ⟨bytes whole, (bytes before).length⟩ =
        (⟨bytes read, (bytes before).length, .eof⟩, ⟨bytes whole, (bytes whole).length⟩) := by
      simp only [Scanner.statement, here, slice, if_true]
    rw [Scanner.calls, told, if_pos rfl, statementsFrom]
    simp [Statement.call, front]
  | cons c rest ih =>
    have goesOn : whole = before ++ (read ++ [c]) ++ rest := by simp [parts]
    have place : (Place.behind (before ++ read)).next c = .behind (before ++ (read ++ [c])) := by
      rw [← List.append_assoc, Place.behind_append _ [c]]
      rfl
    have joined : before ++ read ++ [c] = before ++ (read ++ [c]) := List.append_assoc ..
    rw [statementsFrom_cons, place]
    cases moved : move s depth c with
    | next s' depth' =>
      have taken := resume_char (parts ▸ fits) moved
      rw [← parts, joined] at taken
      have later := ih goesOn taken.2 (here.trans taken.1)
      rwa [List.reverse_append] at later
    | finish ending =>
      have taken := resume_mark (parts ▸ fits) moved
      rw [← parts, joined] at taken
      obtain ⟨stops, size, fresh⟩ := taken
      have slice := slice_bytes before read (c :: rest)
      have front : whole.take before.length = before := by simp [parts]
      rw [← parts] at slice
      have told : Scanner.statement ⟨bytes whole, (bytes before).length⟩ =
          (⟨bytes read, (bytes before).length, ending⟩,
            ⟨bytes whole, (bytes (before ++ (read ++ [c]))).length⟩) := by
        simp only [Scanner.statement, here, stops, slice, size,
          if_neg (ne_eof_of_finish moved).symm]
      have behind : whole = before ++ (read ++ [c]) ++ [] ++ rest := by simp [goesOn]
      have later := ih behind (by rwa [List.append_nil]) (by rw [List.append_nil]; rfl)
      rw [List.append_nil] at later
      rw [Scanner.calls, told, if_neg (ne_eof_of_finish moved).symm, later]
      simp [Statement.call, front]

theorem flatMap_statementsFrom (s : ScanState) (depth : Nat) (start place : Place)
    (text cs : List Char) :
    (statementsFrom s depth start place text cs).flatMap (fun s => s.text ++ s.ending.mark) =
      text.reverse ++ cs := by
  induction cs generalizing s depth start place text with
  | nil => simp [statementsFrom, Ending.mark]
  | cons c cs ih =>
    rw [statementsFrom_cons]
    cases moved : move s depth c with
    | next s' depth' => simp [ih]
    | finish ending => simp [ih, (mark_of_ending? (ending?_of_finish moved)).1]

/-- The calls of the scan by bytes tell the statements that the scan by characters finds. Only the
last one is ended by the end of the text, and each other one is followed by one that begins behind
its mark. What a call tells is a slice of the source, from a boundary of characters to another, and
all statements with their marks are the source. -/
theorem statements_lossless (text : String) :
    let source := text.toUTF8.data.toList
    let calls := Scanner.calls { source }
    calls = (statements text.toList).map (Statement.call text.toList) ∧
    (∃ before last, calls = before ++ [last] ∧ last.ending = .eof ∧
      ∀ call ∈ before, call.ending ≠ .eof) ∧
    (∀ call ∈ calls.head?, call.offset = 0) ∧
    calls.IsChain (fun call next => next.offset = call.offset + call.text.length + 1) ∧
    (∀ call ∈ calls, call.text = (source.drop call.offset).take call.text.length ∧
      ∃ before own after, text.toList = before ++ own ++ after ∧
        call.offset = (bytes before).length ∧ call.text = bytes own) ∧
    calls.flatMap Call.written = source ∧
    (statements text.toList).flatMap (fun s => s.text ++ s.ending.mark) = text.toList := by
  intro source calls
  have parts : Parts source 0 calls := Scanner.calls_part { source }
  have same : calls = (statements text.toList).map (Statement.call text.toList) := by
    change Scanner.calls ⟨text.toUTF8.data.toList, (bytes []).length⟩ = _
    rw [Text.toUTF8_eq_bytes]
    exact @calls_statementsFrom (.plain false) 0 _ [] [] _ rfl rfl rfl
  refine ⟨same, parts.concat, parts.head_offset, parts.isChain, fun call member => ?_,
    parts.flatMap_written, flatMap_statementsFrom ..⟩
  refine ⟨parts.slice call member, ?_⟩
  rw [same] at member
  obtain ⟨s, found, rfl⟩ := List.mem_map.1 member
  obtain ⟨before, after, whole, begins⟩ := parts_of_mem_statements found
  have front : text.toList.take s.start.offset = before := by
    rw [begins, Place.behind_offset, whole, List.append_assoc, List.take_left]
  exact ⟨before, s.text, after, whole, by rw [Statement.call, front], rfl⟩

-- The backslash at the end escapes nothing, and the quoted text is never closed.
example : (statements "é;@\x7b;\x7d(;)\"\\\";\\".toList).map (fun s => (s.text, s.ending)) =
    [("é".toList, .semicolon), ("@\x7b;\x7d(;)\"\\\";\\".toList, .eof)] := by decide

end CodeOutline.Analysis.Less
