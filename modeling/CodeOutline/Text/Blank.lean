/-!
Blank characters and what is cut at them. A character is blank when it has the Unicode
property White_Space; trimming, splitting into words and collapsing all use that one class.
-/

set_option autoImplicit false

namespace CodeOutline.Text

def isBlank (c : Char) : Bool :=
  let n := c.toNat
  (9 ≤ n && n ≤ 13) || n == 0x20 || n == 0x85 || n == 0xA0 || n == 0x1680 ||
    (0x2000 ≤ n && n ≤ 0x200A) || n == 0x2028 || n == 0x2029 || n == 0x202F ||
    n == 0x205F || n == 0x3000

def trimLeft (cs : List Char) : List Char := cs.dropWhile isBlank

/-- The text without its trailing blanks. -/
def trimRight (cs : List Char) : List Char := (cs.reverse.dropWhile isBlank).reverse

/-- The text without blanks at either end. -/
def trimChars (cs : List Char) : List Char := trimRight (trimLeft cs)

/-- The text without blanks at either end. -/
def trim (s : String) : String := String.ofList (trimChars s.toList)

def splitChars {α : Type} (isSep : α → Bool) : List α → List (List α)
  | [] => [[]]
  | c :: cs =>
    if isSep c then [] :: splitChars isSep cs
    else match splitChars isSep cs with
      | [] => [[c]]
      | piece :: rest => (c :: piece) :: rest

def splitAt (sep : Char) (s : String) : List String :=
  (splitChars (· == sep) s.toList).map String.ofList

def wordChars (cs : List Char) : List (List Char) :=
  (splitChars isBlank cs).filter (fun piece => !piece.isEmpty)

def words (s : String) : List String := (wordChars s.toList).map String.ofList

/-- The words of the text with one space between two of them. -/
def collapse (s : String) : String := " ".intercalate (words s)

def leadingWords (line : String) (limit : Nat) : List String := (words line).take limit

def dropReturn (cs : List Char) : List Char :=
  match cs.reverse with
  | '\r' :: rest => rest.reverse
  | _ => cs

/-- Lines without their ends: a line feed ends a line, a carriage return just before it
belongs to it, and a text that ends in a line feed has no further empty line. -/
def lineChars (cs : List Char) : List (List Char) :=
  let pieces := splitChars (· == '\n') cs
  match pieces.reverse with
  | [] => []
  | [] :: done => done.reverse.map dropReturn
  | last :: done => done.reverse.map dropReturn ++ [last]

/-- Lines without their ends, as strings. -/
def lines (s : String) : List String := (lineChars s.toList).map String.ofList

/-- All characters are in the ASCII range. -/
def isAscii (s : String) : Bool := s.toList.all (·.toNat < 128)

/-- ASCII capital letters made small; every other character is kept. -/
def lowerAscii (s : String) : String := s.map Char.toLower

end CodeOutline.Text
