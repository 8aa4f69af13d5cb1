import CodeOutline.Analysis.Json

/-!
JSON values together with the way they are written, and the outline that mirrors them. Between
any two tokens there may be blanks; strings and numbers keep their spelling.
-/

set_option autoImplicit false

namespace CodeOutline.Analysis.Json

/-- Blanks between two tokens. -/
structure Gap where
  chars : List Char
  blank : ∀ c ∈ chars, Syntax.Scan.blank c = true

/-! Strings and numbers -/

/-- What stands for one character of a string. -/
inductive Letter
  | plain (c : Char) (fits : c ≠ '\\' ∧ c ≠ '"' ∧ c ≠ '\n' ∧ c ≠ '\x00')
  | escape (c : Char) (fits : c ∈ ['"', '\\', '/', 'b', 'f', 'n', 'r', 't', 'u'])

def Letter.chars : Letter → List Char
  | .plain c _ => [c]
  | .escape c _ => ['\\', c]

/-- The source text of a string between its quotes. -/
def inner (letters : List Letter) : List Char := (letters.map Letter.chars).flatten

def quoted (letters : List Letter) : List Char := '"' :: (inner letters ++ ['"'])

structure Digits where
  chars : List Char
  fits : ∀ c ∈ chars, c.isDigit = true

/-- The digits before the point; the first one is a zero only when it is alone. -/
inductive Whole
  | zero
  | other (first : Char) (fits : first.isDigit = true ∧ first ≠ '0') (more : Digits)

def Whole.chars : Whole → List Char
  | .zero => ['0']
  | .other first _ more => first :: more.chars

def minus (isNegative : Bool) : List Char := if isNegative then ['-'] else []

/-- What stands in front of the digits of an exponent. -/
inductive Sign
  | absent | minus | plus
deriving DecidableEq

def Sign.chars : Sign → List Char
  | .absent => []
  | .minus => ['-']
  | .plus => ['+']

structure Exponent where
  isCapital : Bool
  sign : Sign
  digits : Digits
  filled : digits.chars ≠ []

def Exponent.letter (e : Exponent) : Char := if e.isCapital then 'E' else 'e'

def Exponent.chars (e : Exponent) : List Char := e.letter :: (e.sign.chars ++ e.digits.chars)

structure Number where
  isNegative : Bool
  whole : Whole
  fraction : Option Digits
  exponent : Option Exponent

def fractionChars : Option Digits → List Char
  | none => []
  | some digits => '.' :: digits.chars

def exponentChars : Option Exponent → List Char
  | none => []
  | some e => e.chars

def Number.chars (n : Number) : List Char :=
  minus n.isNegative ++ (n.whole.chars ++ (fractionChars n.fraction ++ exponentChars n.exponent))

inductive Scalar
  | string (letters : List Letter)
  | number (n : Number)
  | truth (value : Bool)
  | null

def Scalar.chars : Scalar → List Char
  | .string letters => quoted letters
  | .number n => n.chars
  | .truth value => (if value then "true" else "false").toList
  | .null => "null".toList

/-- There is an exponent with a plus sign. -/
def Number.hasPlus (n : Number) : Bool := n.exponent.any (·.sign == .plus)

def Scalar.hasPlus : Scalar → Bool
  | .number n => n.hasPlus
  | _ => false

/-! Values -/

inductive Container
  | object | array
deriving DecidableEq

namespace Container

def opening : Container → Char
  | .object => '\x7b'
  | .array => '['

def closing : Container → Char
  | .object => '\x7d'
  | .array => ']'

def kind : Container → DataKind
  | .object => .object
  | .array => .array

end Container

/-- The key of a member, up to its value. -/
structure Key where
  letters : List Letter
  behind : Gap
  before : Gap

namespace Container

/-- What stands before a value: nothing in an array, and its key in an object. -/
def Label : Container → Type
  | .object => Key
  | .array => Unit

def labelChars : (c : Container) → c.Label → List Char
  | .object, (key : Key) => quoted key.letters ++ (key.behind.chars ++ ':' :: key.before.chars)
  | .array, _ => []

/-- The name of a value: the source text of its key between the quotes, or its index. -/
def labelName : (c : Container) → c.Label → Nat → String
  | .object, (key : Key), _ => String.ofList (inner key.letters)
  | .array, _, index => toString index

end Container

mutual

/-- A value as it is written. -/
inductive Source
  | scalar (s : Scalar)
  | empty (c : Container) (gap : Gap)
  | filled (c : Container) (items : Items c)

/-- The values between the brackets of a container, at least one. -/
inductive Items : Container → Type
  | last {c : Container} (before : Gap) (label : c.Label) (value : Source) (behind : Gap) : Items c
  | more {c : Container} (before : Gap) (label : c.Label) (value : Source) (behind : Gap)
      (others : Items c) : Items c

end

mutual

/-- The source text of a value. -/
def Source.chars : Source → List Char
  | .scalar s => s.chars
  | .empty c gap => c.opening :: (gap.chars ++ [c.closing])
  | .filled c items => c.opening :: (items.chars ++ [c.closing])

def Items.chars {c : Container} : Items c → List Char
  | .last before label value behind =>
    before.chars ++ (c.labelChars label ++ (value.chars ++ behind.chars))
  | .more before label value behind others =>
    before.chars ++ (c.labelChars label ++ (value.chars ++ (behind.chars ++ ',' :: others.chars)))

end

mutual

/-- Some number in the value has an exponent with a plus sign. -/
def Source.hasPlus : Source → Bool
  | .scalar s => s.hasPlus
  | .empty _ _ => false
  | .filled _ items => items.hasPlus

def Items.hasPlus {c : Container} : Items c → Bool
  | .last _ _ value _ => value.hasPlus
  | .more _ _ value _ others => value.hasPlus || others.hasPlus

end

namespace Items

variable {c : Container}

/-- The source text of the values up to the end of the last one. -/
def body : Items c → List Char
  | .last before label value _ => before.chars ++ (c.labelChars label ++ value.chars)
  | .more before label value behind others =>
    before.chars ++ (c.labelChars label ++ (value.chars ++ (behind.chars ++ ',' :: others.body)))

/-- The blanks behind the last value. -/
def behind : Items c → Gap
  | .last _ _ _ gap => gap
  | .more _ _ _ _ others => others.behind

theorem chars_eq : (items : Items c) → items.chars = items.body ++ items.behind.chars
  | .last .. => by simp [chars, body, behind]
  | .more _ _ _ _ others => by simp [chars, body, behind, others.chars_eq]

end Items

/-- The range of a part of a text, by the points behind the beginnings of the text. -/
def extent (point : List Char → Point) (before cs : List Char) : Span :=
  ⟨point before, point (before ++ cs)⟩

mutual

/-- The token that mirrors a value, written behind a part of the text. -/
def Source.mirror (point : List Char → Point) (name : String) (before : List Char) :
    Source → DataToken
  | .scalar s => {
      name, span := some (extent point before s.chars), kind := .value
      value := some (String.ofList s.chars) }
  | .empty c gap => {
      name, span := some (extent point before (Source.empty c gap).chars), kind := c.kind }
  | .filled c items => {
      name, span := some (extent point before (Source.filled c items).chars), kind := c.kind
      children := items.mirror point (before ++ [c.opening]) 0 }

/-- The tokens for values from an index on. -/
def Items.mirror {c : Container} (point : List Char → Point) (before : List Char) (index : Nat) :
    Items c → List DataToken
  | .last gap label value _ =>
    [value.mirror point (c.labelName label index) (before ++ (gap.chars ++ c.labelChars label))]
  | .more gap label value behind others =>
    value.mirror point (c.labelName label index) (before ++ (gap.chars ++ c.labelChars label)) ::
      others.mirror point (before ++ (gap.chars ++ (c.labelChars label ++
        (value.chars ++ (behind.chars ++ [',']))))) (index + 1)

end

end CodeOutline.Analysis.Json
