import CodeOutline.Proofs.Json.Source
import CodeOutline.Proofs.Syntax.Reading

/-!
What the scans of a JSON document take of a written string or number, and where they take nothing.
The alternatives for a value, told apart by the characters they begin with, and the leaf that
a written scalar is read as.
-/

set_option autoImplicit false

namespace CodeOutline.Analysis.Json

open Syntax Grammar.Json

/-- The kind of the nodes for a container. -/
def Container.word : Container → String
  | .object => "object"
  | .array => "array"

section Tokens

variable {p : Char → Bool} {c : Char} {cs rest : List Char}

/-! Strings -/

theorem Letter.taken (letter : Letter) (following : List Char) :
    charScan.Takes letter.chars following := by
  cases letter with
  | plain c fits =>
    have plain : isPlain c = true := by
      obtain ⟨backslash, quote, newline, zero⟩ := fits
      have code : c.toNat ≠ 0 := fun same => zero (Char.toNat_inj.1 same)
      simp [isPlain, backslash, quote, newline, code]
    exact .alt_left (Scan.takes_one plain following)
  | escape c fits =>
    have escaped : isEscaped c = true := List.contains_iff_mem.2 fits
    have other : Scan.one isPlain ('\\' :: c :: following) = none :=
      Scan.one_eq_none (Scan.stopsAt_cons (by decide) _)
    exact .alt_right other (.alt_left (.seq (Scan.takes_text "\\" _)
      (Scan.takes_one escaped following)))

theorem takes_quoted (letters : List Letter) (rest : List Char) :
    stringScan.Takes (quoted letters) rest := by
  have quote : charScan ('"' :: rest) = none := by
    have plain : Scan.one isPlain ('"' :: rest) = none :=
      Scan.one_eq_none (Scan.stopsAt_cons (by decide) rest)
    have escape : Scan.text "\\" ('"' :: rest) = none := Scan.text_eq_none (by simp) (by decide)
    simp [charScan, Scan.first, Scan.alt, Scan.seq, plain, escape]
  have within : (Scan.many charScan).Takes (inner letters) ('"' :: rest) := by
    refine Scan.takes_many ?_ quote
    intro part member
    obtain ⟨letter, -, rfl⟩ := List.mem_map.1 member
    refine ⟨?_, letter.taken⟩
    cases letter <;> simp [Letter.chars]
  exact .seq (Scan.takes_text "\"" _) (.seq within (.last (Scan.takes_text "\"" rest)))

theorem unquote_quoted (letters : List Letter) :
    Text.unquote (String.ofList (quoted letters)) = String.ofList (inner letters) := by
  have notBlank : Text.isBlank '"' = false := by decide
  have trimmed : Text.trimChars (quoted letters) = quoted letters := by
    have front : (quoted letters).dropWhile Text.isBlank = quoted letters := by
      rw [quoted, List.dropWhile_cons_of_neg (by simp [notBlank])]
    have back : (quoted letters).reverse.dropWhile Text.isBlank = (quoted letters).reverse := by
      rw [quoted, List.reverse_cons, List.reverse_append, List.reverse_singleton,
        List.cons_append, List.cons_append, List.dropWhile_cons_of_neg (by simp [notBlank])]
    rw [Text.trimChars, Text.trimLeft, Text.trimRight, front, back, List.reverse_reverse]
  have ending : Text.dropEnd? ['"'] (inner letters ++ ['"']) = some (inner letters) := by
    simp [Text.dropEnd?, Text.dropStart?]
  have opening : Text.dropStart? ['"'] (quoted letters) = some (inner letters ++ ['"']) := rfl
  simp [Text.unquote, trimmed, opening, ending]

theorem stringScan_eq_none (other : rest.head? ≠ some '"') : stringScan rest = none := by
  have absent : Scan.text "\"" rest = none :=
    Scan.text_eq_none (fun same => other same.symm) (by decide)
  simp [stringScan, Scan.all, Scan.seq, absent]

/-! Numbers -/

def continues (c : Char) : Bool := Scan.digit c || c == '.' || c == 'e' || c == 'E'

theorem takes_minus (isNegative : Bool) (other : rest.head? ≠ some '-') :
    (Scan.opt (Scan.text "-")).Takes (minus isNegative) rest := by
  cases isNegative with
  | true => exact .opt (Scan.takes_text "-" rest)
  | false => exact .opt_nil (Scan.text_eq_none (fun same => other same.symm) (by decide))

theorem Whole.taken (whole : Whole) (stops : Scan.StopsAt Scan.digit rest) :
    (Scan.first [Scan.text "0", Scan.run1 Scan.digit]).Takes whole.chars rest := by
  cases whole with
  | zero => exact .alt_left (Scan.takes_text "0" rest)
  | other first fits more =>
    have notZero : Scan.text "0" (first :: (more.chars ++ rest)) = none := by
      refine Scan.text_eq_none ?_ (by decide)
      intro same
      exact fits.2 (Option.some.inj same).symm
    have digits : ∀ c ∈ first :: more.chars, Scan.digit c = true := by
      rw [List.forall_mem_cons]
      exact ⟨fits.1, more.fits⟩
    exact .alt_right notZero (.alt_left (Scan.takes_run1 digits (List.cons_ne_nil _ _) stops))

theorem takes_fraction (fraction : Option Digits) (stops : Scan.StopsAt Scan.digit rest)
    (point : rest.head? ≠ some '.') :
    (Scan.opt (Scan.seq (Scan.text ".") (Scan.run Scan.digit))).Takes (fractionChars fraction)
      rest := by
  cases fraction with
  | none =>
    have absent : Scan.text "." rest = none :=
      Scan.text_eq_none (fun same => point same.symm) (by decide)
    exact .opt_nil (by simp [Scan.seq, absent])
  | some digits =>
    exact .opt (.seq (Scan.takes_text "." _) (Scan.takes_run digits.fits stops))

section Exponents

variable (e : Exponent)

theorem Exponent.letter_cases : e.letter = 'e' ∨ e.letter = 'E' := by
  unfold letter
  cases e.isCapital with
  | true => exact .inr rfl
  | false => exact .inl rfl

theorem Exponent.letter_taken (following : List Char) :
    (Scan.one (fun c => c == 'e' || c == 'E')).Takes [e.letter] following := by
  refine Scan.takes_one ?_ following
  rcases e.letter_cases with small | capital
  · rw [small]; rfl
  · rw [capital]; rfl

theorem Exponent.digits_cons :
    ∃ first more, e.digits.chars = first :: more ∧ first.isDigit = true := by
  obtain ⟨first, more, digits⟩ := List.exists_cons_of_ne_nil e.filled
  exact ⟨first, more, digits, e.digits.fits first (by simp [digits])⟩

theorem Exponent.taken {e : Exponent} (plain : e.sign ≠ .plus)
    (stops : Scan.StopsAt Scan.digit rest) : exponentScan.Takes e.chars rest := by
  have sign : (Scan.opt (Scan.text "-")).Takes e.sign.chars (e.digits.chars ++ rest) := by
    cases sign : e.sign with
    | absent =>
      refine takes_minus false ?_
      obtain ⟨first, more, digits, digit⟩ := e.digits_cons
      rw [digits, List.cons_append, List.head?_cons, ne_eq, Option.some.injEq]
      rintro rfl
      cases digit
    | minus => exact .opt (Scan.takes_text "-" _)
    | plus => exact absurd sign plain
  exact .seq (e.letter_taken _) (.seq sign
    (.last (Scan.takes_run1 e.digits.fits e.filled stops)))

theorem Exponent.refused {e : Exponent} (plus : e.sign = .plus) (rest : List Char) :
    (Scan.opt exponentScan).Takes [] (e.chars ++ rest) := by
  have letter := e.letter_taken ('+' :: (e.digits.chars ++ rest))
  have source : e.chars ++ rest = [e.letter] ++ '+' :: (e.digits.chars ++ rest) := by
    rw [Exponent.chars, plus]
    simp [Sign.chars]
  have absent : Scan.text "-" ('+' :: (e.digits.chars ++ rest)) = none :=
    Scan.text_eq_none (by simp) (by decide)
  rw [Scan.Takes, ← source] at letter
  refine .opt_nil ?_
  simp only [exponentScan, Scan.all, Scan.seq, letter, bind, Option.bind]
  rw [source]
  simp [Scan.opt, Scan.alt, absent, Scan.run1, Scan.digit]

end Exponents

theorem takes_exponent {exponent : Option Exponent} (plain : ∀ e ∈ exponent, e.sign ≠ .plus)
    (stops : Scan.StopsAt continues rest) :
    (Scan.opt exponentScan).Takes (exponentChars exponent) rest := by
  cases exponent with
  | none =>
    have absent : Scan.one (fun c => c == 'e' || c == 'E') rest = none :=
      Scan.one_eq_none (stops.mono (by simp +contextual [continues]))
    exact .opt_nil (by simp [exponentScan, Scan.all, Scan.seq, absent])
  | some e => exact .opt (Exponent.taken (plain e rfl)
      (stops.mono (by simp +contextual [continues])))

/-- What a number has in front of its exponent. -/
def Number.front (n : Number) : List Char :=
  minus n.isNegative ++ (n.whole.chars ++ fractionChars n.fraction)

theorem Number.chars_eq (n : Number) : n.chars = n.front ++ exponentChars n.exponent := by
  simp [chars, front]

theorem Number.front_taken (n : Number) {power : List Char}
    (behind : Scan.StopsAt (fun c => Scan.digit c || c == '.') (power ++ rest))
    (last : (Scan.opt exponentScan).Takes power rest) :
    numberScan.Takes (n.front ++ power) rest := by
  obtain ⟨isNegative, whole, fraction, exponent⟩ := n
  have behindWhole : Scan.StopsAt Scan.digit (fractionChars fraction ++ (power ++ rest)) := by
    cases fraction with
    | none => exact behind.mono (by simp +contextual)
    | some digits => exact Scan.stopsAt_cons rfl _
  have sign (following : List Char) : (whole.chars ++ following).head? ≠ some '-' := by
    cases whole with
    | zero => simp [Whole.chars]
    | other first fits more =>
      rw [Whole.chars, List.cons_append, List.head?_cons, ne_eq, Option.some.injEq]
      rintro rfl
      cases fits.1
  have tail : (Scan.all [Scan.opt (Scan.seq (Scan.text ".") (Scan.run Scan.digit)),
      Scan.opt exponentScan]).Takes (fractionChars fraction ++ power) rest :=
    .seq (takes_fraction fraction (behind.mono (by simp +contextual)) (behind.head?_ne rfl))
      (.last last)
  rw [← List.append_assoc] at behindWhole
  rw [front, List.append_assoc, List.append_assoc]
  exact .seq (takes_minus isNegative (by rw [List.append_assoc]; exact sign _))
    (.seq (whole.taken behindWhole) tail)

theorem Exponent.stopsAt (e : Exponent) (rest : List Char) :
    Scan.StopsAt (fun c => Scan.digit c || c == '.') (e.chars ++ rest) := by
  refine Scan.stopsAt_cons ?_ _
  rcases e.letter_cases with small | capital
  · rw [small]; rfl
  · rw [capital]; rfl

theorem Number.taken {n : Number} (plain : n.hasPlus = false)
    (stops : Scan.StopsAt continues rest) : numberScan.Takes n.chars rest := by
  have signs : ∀ e ∈ n.exponent, e.sign ≠ .plus := by
    intro e member signed
    rw [hasPlus, Option.mem_def.1 member] at plain
    simp [signed] at plain
  rw [n.chars_eq]
  refine n.front_taken ?_ (takes_exponent signs stops)
  cases n.exponent with
  | none => exact stops.mono (by simp +contextual [continues])
  | some e => exact e.stopsAt rest

theorem Number.front_taken_of_hasPlus {n : Number} (plus : n.hasPlus = true) (rest : List Char) :
    ∃ letter more, (letter = 'e' ∨ letter = 'E') ∧ n.chars ++ rest = n.front ++ letter :: more ∧
      numberScan.Takes n.front (letter :: more) := by
  obtain ⟨e, exponent, signed⟩ : ∃ e, n.exponent = some e ∧ e.sign = .plus := by
    simpa [hasPlus, Option.any_eq_true] using plus
  refine ⟨e.letter, e.sign.chars ++ e.digits.chars ++ rest, e.letter_cases, ?_, ?_⟩
  · rw [n.chars_eq, exponent, List.append_assoc]
    rfl
  · have taken : numberScan.Takes (n.front ++ []) (e.chars ++ rest) :=
      n.front_taken (e.stopsAt rest) (Exponent.refused signed rest)
    rwa [List.append_nil] at taken

theorem numberScan_eq_none (other : Scan.StopsAt (fun c => Scan.digit c || c == '-') rest) :
    numberScan rest = none := by
  have sign : Scan.text "-" rest = none :=
    Scan.text_eq_none (fun same => other.head?_ne (by rfl) same.symm) (by decide)
  have zero : Scan.text "0" rest = none :=
    Scan.text_eq_none (fun same => other.head?_ne (by rfl) same.symm) (by decide)
  have digits : Scan.run1 Scan.digit rest = none := by
    cases rest with
    | nil => rfl
    | cons c cs =>
      have stop := other c rfl
      simp only [Bool.or_eq_false_iff] at stop
      simp [Scan.run1, stop.1]
  simp [numberScan, Scan.all, Scan.first, Scan.seq, Scan.opt, Scan.alt, sign, zero, digits]

end Tokens

variable {before rest : List Char} {gap : Gap} {c : Container}

/-! Between tokens -/

def opensGap (c : Char) : Bool := Scan.blank c || c == '/'

theorem Gap.skips (gap : Gap) (stops : Scan.StopsAt opensGap rest) :
    grammar.Skips gap.chars rest := by
  have slash : rest.head? ≠ some '/' := stops.head?_ne (by decide)
  have line : Scan.text "//" rest = none :=
    Scan.text_eq_none (fun same => slash same.symm) (by decide)
  have block : Scan.text "/*" rest = none :=
    Scan.text_eq_none (fun same => slash same.symm) (by decide)
  refine Grammar.skips_of_blank (fun _ _ => rfl) gap.blank
    (stops.mono (by simp +contextual [opensGap])) ?_
  simp [Scan.slashComment, Scan.blockComment, Scan.seq, line, block]

theorem mem_of_blank {c : Char} (blank : Scan.blank c = true) :
    c ∈ [' ', '\t', '\n', '\r', '\x0b', '\x0c'] := by
  simp only [Scan.blank, Bool.or_eq_true, beq_iff_eq] at blank
  rcases blank with ((((rfl | rfl) | rfl) | rfl) | code) | code
  · decide
  · decide
  · decide
  · decide
  · obtain rfl : c = '\x0b' := Char.toNat_inj.1 code
    decide
  · obtain rfl : c = '\x0c' := Char.toNat_inj.1 code
    decide

theorem Gap.stopsAt_continues (gap : Gap) (stops : Scan.StopsAt continues rest) :
    Scan.StopsAt continues (gap.chars ++ rest) := by
  cases chars : gap.chars with
  | nil => exact stops
  | cons c cs =>
    have blank := mem_of_blank (gap.blank c (by simp [chars]))
    have other : [' ', '\t', '\n', '\r', '\x0b', '\x0c'].all (!continues ·) = true := by decide
    exact Scan.stopsAt_cons (by simpa using List.all_eq_true.1 other c blank) _

/-! Rules -/

namespace Container

def openSign : Container → String
  | .object => "\x7b"
  | .array => "["

def closeSign : Container → String
  | .object => "\x7d"
  | .array => "]"

/-- What stands between the commas. -/
def element : Container → Rule Name
  | .object => pair
  | .array => .call .value

def rule (c : Container) : Rule Name :=
  .node c.word (Rule.sequence [.sign c.openSign, Rule.commas0 c.element, .sign c.closeSign])

theorem openSign_toList (c : Container) : c.openSign.toList = [c.opening] := by cases c <;> rfl

theorem closeSign_toList (c : Container) : c.closeSign.toList = [c.closing] := by cases c <;> rfl

end Container

/-- An alternative for a value, with the characters that it begins with. -/
structure Alternative where
  rule : Rule Name
  begins : List Char

namespace Alternative

def bracket (c : Container) : Alternative := ⟨c.rule, [c.opening]⟩

def quote : Alternative := ⟨string, ['"']⟩

def number : Alternative := ⟨.leaf "number" numberScan, "-0123456789".toList⟩

def word (w : String) : Alternative := ⟨.leaf w (Scan.text w), w.toList.take 1⟩

/-- The alternatives in the order in which they are tried. -/
def all : List Alternative :=
  [bracket .object, bracket .array, quote, number, word "true", word "false", word "null"]

theorem bracket_mem (c : Container) : bracket c ∈ all := by cases c <;> simp [all]

theorem quote_mem : quote ∈ all := by simp [all]

end Alternative

def opensValue (c : Char) : Bool := Alternative.all.any (·.begins.contains c)

theorem rules_value : grammar.rule .value = Rule.choice (Alternative.all.map (·.rule)) := rfl

theorem mem_begins_of_digit {c : Char} (digit : Scan.digit c = true) :
    c ∈ Alternative.number.begins := by
  have listed : ∀ n < 10, Char.ofNat (48 + n) ∈ Alternative.number.begins := by decide
  rw [Scan.digit, Char.isDigit, Bool.and_eq_true, decide_eq_true_eq, decide_eq_true_eq] at digit
  have low : 48 ≤ c.toNat := UInt32.le_iff_toNat_le.1 digit.1
  have high : c.toNat ≤ 57 := UInt32.le_iff_toNat_le.1 digit.2
  have here := listed (c.toNat - 48) (by omega)
  rwa [Nat.add_sub_cancel' low, Char.ofNat_toNat] at here

namespace Alternative

variable {a : Alternative}

theorem opensGap_of_mem (listed : a ∈ all) {c : Char} (begins : c ∈ a.begins) :
    opensGap c = false := by
  have apart : ∀ a ∈ all, a.begins.all (!opensGap ·) = true := by decide
  simpa using List.all_eq_true.1 (apart a listed) c begins

theorem all_apart : all.Pairwise (fun a b => b.begins.all (!a.begins.contains ·) = true) := by
  decide

theorem bracket_fails (c : Container) (gap : Gap) (stops : Scan.StopsAt opensGap rest)
    (other : rest.head? ≠ some c.opening) (before : List Char) :
    grammar.Fails c.rule (.between before (gap.chars ++ rest)) := by
  have bracket : c.openSign.toList.head? ≠ rest.head? := by
    rw [c.openSign_toList]
    exact fun same => other same.symm
  have filled : c.openSign ≠ "" := by cases c <;> decide
  exact .node _ (.seq ((gap.skips stops).fails_sign bracket filled before))

theorem fails (listed : a ∈ all) (gap : Gap) (stops : Scan.StopsAt opensGap rest)
    (other : ∀ c ∈ a.begins, rest.head? ≠ some c) (before : List Char) :
    grammar.Fails a.rule (.between before (gap.chars ++ rest)) := by
  have skips := gap.skips stops
  have word (w : String) {first : Char} (head : w.toList.head? = some first)
      (absent : rest.head? ≠ some first) (filled : w ≠ "") :
      grammar.Fails (.leaf w (Scan.text w)) (.between before (gap.chars ++ rest)) :=
    skips.fails_leaf (Scan.text_eq_none (fun same => absent (same.symm.trans head)) filled) before
  simp only [all, List.mem_cons, List.not_mem_nil, or_false] at listed
  rcases listed with rfl | rfl | rfl | rfl | rfl | rfl | rfl
  · exact bracket_fails .object gap stops (other _ (List.mem_singleton_self _)) before
  · exact bracket_fails .array gap stops (other _ (List.mem_singleton_self _)) before
  · exact skips.fails_leaf (stringScan_eq_none (other _ (List.mem_singleton_self _))) before
  · refine skips.fails_leaf (numberScan_eq_none fun c head => ?_) before
    rw [Bool.or_eq_false_iff, beq_eq_false_iff_ne, ← Bool.not_eq_true]
    exact ⟨fun digit => other c (mem_begins_of_digit digit) head,
      fun minus => other '-' (by decide) (minus ▸ head)⟩
  · exact word "true" rfl (other 't' (by decide)) (by decide)
  · exact word "false" rfl (other 'f' (by decide)) (by decide)
  · exact word "null" rfl (other 'n' (by decide)) (by decide)

theorem reads_value (listed : a ∈ all) {c : Char} (begins : c ∈ a.begins) {n : Nat}
    {cs : List Char} {nodes : List Node} {stop : Cursor}
    (reads : grammar.Reads n a.rule (.between before (gap.chars ++ c :: cs)) nodes stop) :
    grammar.Reads (n + 8) (.call .value) (.between before (gap.chars ++ c :: cs)) nodes stop := by
  obtain ⟨front, back, order⟩ := List.append_of_mem listed
  have short : front.length ≤ 6 := by
    have total := congrArg List.length order
    rw [List.length_append, List.length_cons] at total
    have seven : all.length = 7 := rfl
    omega
  have fails : ∀ rule ∈ front.map (·.rule),
      grammar.Fails rule (.between before (gap.chars ++ c :: cs)) := by
    intro rule member
    obtain ⟨b, earlier, rfl⟩ := List.mem_map.1 member
    have apart := all_apart
    rw [order, List.pairwise_append] at apart
    refine b.fails (by simp [order, earlier]) gap
      (Scan.stopsAt_cons (opensGap_of_mem listed begins) cs) (fun d member head => ?_) before
    obtain rfl : c = d := Option.some.inj head
    have absent := List.all_eq_true.1 (apart.2.2 b earlier a List.mem_cons_self) c begins
    simp [member] at absent
  have chosen : grammar.Reads (n + (front.map (·.rule)).length + 1)
      (Rule.choice (front.map (·.rule) ++ a.rule :: back.map (·.rule)))
      (.between before (gap.chars ++ c :: cs)) nodes stop := .choice fails reads
  rw [← List.map_cons, ← List.map_append, ← order, ← rules_value, List.length_map] at chosen
  exact chosen.call.mono (by omega)

end Alternative

theorem value_fails (gap : Gap) (stops : Scan.StopsAt opensGap rest)
    (other : Scan.StopsAt opensValue rest) (before : List Char) :
    grammar.Fails (.call .value) (.between before (gap.chars ++ rest)) := by
  refine .call ?_
  rw [rules_value]
  refine .choice fun rule member => ?_
  obtain ⟨a, listed, rfl⟩ := List.mem_map.1 member
  refine a.fails listed gap stops (fun c begins => other.head?_ne ?_) before
  exact List.any_eq_true.2 ⟨a, listed, List.contains_iff_mem.2 begins⟩

/-! Scalars -/

theorem Number.front_cons (n : Number) :
    ∃ first more, n.front = first :: more ∧ first ∈ Alternative.number.begins := by
  obtain ⟨isNegative, whole, fraction, exponent⟩ := n
  cases isNegative with
  | true => exact ⟨'-', _, rfl, by decide⟩
  | false =>
    cases whole with
    | zero => exact ⟨'0', _, rfl, by decide⟩
    | other first fits more => exact ⟨first, _, rfl, mem_begins_of_digit fits.1⟩

theorem Number.chars_cons (n : Number) :
    ∃ first more, n.chars = first :: more ∧ first ∈ Alternative.number.begins := by
  obtain ⟨first, more, front, begins⟩ := n.front_cons
  exact ⟨first, more ++ exponentChars n.exponent, by rw [n.chars_eq, front]; rfl, begins⟩

namespace Alternative

theorem number_mem : number ∈ all := by simp [all]

theorem reads_leaf {a : Alternative} (listed : a ∈ all) {kind : String} {scan : Scan}
    (rule : a.rule = .leaf kind scan) {first : Char} {more : List Char}
    (begins : first ∈ a.begins) (takes : scan.Takes (first :: more) rest) (gap : Gap)
    (before : List Char) :
    grammar.Reads 9 (.call .value) (.between before (gap.chars ++ (first :: more ++ rest)))
      [.around kind true (before ++ gap.chars) (first :: more) rest []]
      (.between (before ++ gap.chars ++ first :: more) rest) := by
  have other := Scan.stopsAt_cons (opensGap_of_mem listed begins) (more ++ rest)
  exact reads_value listed begins (rule ▸ (gap.skips other).reads_leaf kind takes before)

end Alternative

theorem reads_scalar {s : Scalar} (plain : s.hasPlus = false) (gap : Gap)
    (stops : Scan.StopsAt continues rest) (before : List Char) :
    ∃ kind ∈ ["string", "number", "true", "false", "null"],
      grammar.Reads 9 (.call .value) (.between before (gap.chars ++ (s.chars ++ rest)))
        [.around kind true (before ++ gap.chars) s.chars rest []]
        (.between (before ++ gap.chars ++ s.chars) rest) := by
  cases s with
  | string letters =>
    exact ⟨"string", by decide, Alternative.reads_leaf Alternative.quote_mem rfl (by decide)
      (takes_quoted letters rest) gap before⟩
  | number n =>
    obtain ⟨first, more, chars, begins⟩ := n.chars_cons
    have takes := Number.taken plain stops
    rw [chars] at takes
    rw [Scalar.chars, chars]
    exact ⟨"number", by decide,
      Alternative.reads_leaf Alternative.number_mem rfl begins takes gap before⟩
  | truth value =>
    cases value with
    | true =>
      have listed : Alternative.word "true" ∈ Alternative.all := by simp [Alternative.all]
      exact ⟨"true", by decide, Alternative.reads_leaf listed rfl (by decide)
        (Scan.takes_text "true" rest) gap before⟩
    | false =>
      have listed : Alternative.word "false" ∈ Alternative.all := by simp [Alternative.all]
      exact ⟨"false", by decide, Alternative.reads_leaf listed rfl (by decide)
        (Scan.takes_text "false" rest) gap before⟩
  | null =>
    have listed : Alternative.word "null" ∈ Alternative.all := by simp [Alternative.all]
    exact ⟨"null", by decide, Alternative.reads_leaf listed rfl (by decide)
      (Scan.takes_text "null" rest) gap before⟩

end CodeOutline.Analysis.Json
