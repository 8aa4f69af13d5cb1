import CodeOutline.Syntax.Quoted
import CodeOutline.Text.Letter

/-!
The tokens of C#: names, numbers, quoted texts, and the lines that the preprocessor reads.
-/

set_option autoImplicit false

namespace CodeOutline.Grammar.CSharp

open Syntax

def isNameStart (c : Char) : Bool := Text.isLetter c || c == '_'

def isNameChar (c : Char) : Bool := isNameStart c || c.isDigit

def reserved : List String :=
  ["abstract", "as", "base", "break", "case", "catch", "checked", "class", "const", "continue",
    "default", "delegate", "do", "else", "enum", "event", "explicit", "extern", "false", "finally",
    "fixed", "for", "foreach", "goto", "if", "implicit", "in", "interface", "internal", "is",
    "lock", "namespace", "new", "null", "operator", "out", "override", "params", "private",
    "protected", "public", "readonly", "ref", "return", "sealed", "sizeof", "stackalloc",
    "static", "struct", "switch", "this", "throw", "true", "try", "typeof", "unchecked", "unsafe",
    "using", "virtual", "volatile", "while"]

def nameScan : Scan :=
  let word := Scan.seq (Scan.one isNameStart) (Scan.run isNameChar)
  Scan.alt (Scan.such (fun cs => !reserved.contains (String.ofList cs)) word)
    (Scan.seq (Scan.text "@") word)

private def rawScan : Scan := fun cs =>
  let marks := cs.takeWhile (· == '"')
  if marks.length < 3 then none
  else (Text.cutFirst? marks (cs.drop marks.length)).map
    (fun (before, _) => 2 * marks.length + before.length)

private def quotes (signs : List Char) : Quotes :=
  let isVerbatim := signs.contains '@'
  { mark := ['"'], hasEscapes := !isVerbatim, isDoubled := isVerbatim
    isOneLine := !isVerbatim
    opening := if signs.contains '$' then ['\x7b'] else [] }

private def isStringSign (c : Char) : Bool := c == '@' || c == '$'

private def quotes? (cs : List Char) : Option (Nat × Quotes) :=
  let signs := cs.takeWhile isStringSign
  match cs.drop signs.length with
  | '"' :: _ => some (signs.length + 1, quotes signs)
  | '\'' :: _ => if signs.isEmpty then some (1, Quotes.line '\'') else none
  | _ => none

def stringScan : Scan := fun cs =>
  let signs := cs.takeWhile isStringSign
  match rawScan (cs.drop signs.length) with
  | some n => some (signs.length + n)
  | none =>
    match cs.drop signs.length with
    | '"' :: _ => (quotes signs).scan quotes? (signs.length + 1) cs
    | _ => none

def characterScan : Scan := (Quotes.line '\'').plain

private def isInlineBlank (c : Char) : Bool := c == ' ' || c == '\t'

def directiveScan (p : String → Bool) : Scan :=
  Scan.seq
    (Scan.such (fun cs => p (String.ofList ((cs.drop 1).dropWhile isInlineBlank)))
      (Scan.all [Scan.text "#", Scan.run isInlineBlank, Scan.run isNameChar]))
    (Scan.run Scan.notNewline)

def branching : List String := ["if", "elif", "else", "endif"]

def between (cs : List Char) : Option (Nat × Option String) :=
  match cs with
  | '#' :: _ =>
    (directiveScan (fun w => !branching.contains w) cs).map (fun n => (n, some "preproc_line"))
  | c :: _ =>
    if c.toNat = 0xFEFF then some (1, none)
    else Scan.between [("comment", Scan.slashComment), ("comment", Scan.blockComment)] cs
  | [] => none

end CodeOutline.Grammar.CSharp
