import CodeOutline.Syntax.Quoted
import CodeOutline.Text.Letter

/-!
The tokens of Python: names, numbers, quoted texts, and the indentation of lines.
-/

set_option autoImplicit false

namespace CodeOutline.Grammar.Python

open Syntax

def isNameStart (c : Char) : Bool := Text.isLetter c || c == '_'

def isNameChar (c : Char) : Bool := isNameStart c || c.isDigit

def reserved : List String :=
  ["False", "None", "True", "and", "as", "assert", "break", "class", "continue", "def", "del",
    "elif", "else", "except", "finally", "for", "from", "global", "if", "import", "in", "is",
    "lambda", "nonlocal", "not", "or", "pass", "raise", "return", "try", "while", "with", "yield"]

def nameScan : Scan :=
  Scan.such (fun cs => !reserved.contains (String.ofList cs))
    (Scan.seq (Scan.one isNameStart) (Scan.run isNameChar))

private def digits (p : Char → Bool) : Scan :=
  Scan.seq (Scan.run1 p) (Scan.many (Scan.seq (Scan.text "_") (Scan.run1 p)))

private def oneOf (s : String) : Scan := Scan.one s.toList.contains

def numberScan : Scan :=
  let decimal := digits Scan.digit
  let exponent := Scan.opt (Scan.all [oneOf "eE", Scan.opt (oneOf "+-"), decimal])
  let ending := Scan.opt (oneOf "lLjJ")
  Scan.first [
    Scan.all [Scan.text "0", oneOf "xX", digits Scan.hexDigit, ending],
    Scan.all [Scan.text "0", oneOf "oObB", decimal, ending],
    Scan.all [decimal, Scan.text ".", Scan.opt decimal, exponent, ending],
    Scan.all [Scan.text ".", decimal, exponent, ending],
    Scan.all [decimal, exponent, ending]]

private def quotes? (hasCode : Bool) (cs : List Char) : Option (Nat × Quotes) :=
  ["\"\"\"", "'''", "\"", "'"].findSome? (fun m =>
    (Text.dropStart? m.toList cs).map (fun _ =>
      (m.length, { mark := m.toList, isOneLine := m.length == 1
                   opening := if hasCode then ['\x7b'] else [] })))

def stringScan : Scan := fun cs => do
  let letters := cs.takeWhile "rRbBuUfF".toList.contains
  let rest := cs.drop letters.length
  let (n, q) ← quotes? (letters.any (fun c => c == 'f' || c == 'F')) rest
  let length ← q.scan (quotes? false) n rest
  some (letters.length + length)

def commentScan : Scan := Scan.seq (Scan.text "#") (Scan.run Scan.notNewline)

def continuation : Scan :=
  Scan.all [Scan.text "\\", Scan.opt (Scan.text "\r"), Scan.text "\n"]

def isInnerBlank (c : Char) : Bool := Scan.blank c && c != '\n'

/-- What may stand between two tokens: blanks, and inside brackets also line ends and
comments. -/
def between (depth : Nat) (cs : List Char) : Option (Nat × Option String) :=
  if depth = 0 then
    (Scan.first [Scan.run1 isInnerBlank, continuation] cs).map (fun n => (n, none))
  else
    match (Scan.first [Scan.run1 Scan.blank, continuation] cs) with
    | some n => some (n, none)
    | none => (commentScan cs).map (fun n => (n, some "comment"))

/-- The beginning of the next line with code: how many characters stand before it, how far
it is indented, and whether a line end was passed. -/
def nextLine (count indent : Nat) (isFresh isComment : Bool) :
    List Char → Option (Nat × Nat × Bool)
  | [] => none
  | '\n' :: cs => nextLine (count + 1) 0 true false cs
  | c :: cs =>
    if isComment then nextLine (count + 1) indent isFresh true cs
    else if c = ' ' then nextLine (count + 1) (indent + 1) isFresh false cs
    else if c = '\t' then nextLine (count + 1) (indent + 8) isFresh false cs
    else if c = '\r' || c.toNat = 12 then nextLine (count + 1) 0 isFresh false cs
    else if c = '#' then nextLine (count + 1) indent isFresh true cs
    else some (count, indent, isFresh)

end CodeOutline.Grammar.Python
