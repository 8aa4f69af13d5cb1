import CodeOutline.Syntax.Quoted
import CodeOutline.Text.Letter

/-!
The tokens of C and C++: names, numbers, quoted texts, and the lines that the preprocessor
reads.
-/

set_option autoImplicit false

namespace CodeOutline.Grammar.Cpp

open Syntax

def isNameStart (c : Char) : Bool := Text.isLetter c || c == '_' || c == '$'

def isNameChar (c : Char) : Bool := isNameStart c || c.isDigit

def builtinTypes : List String :=
  ["void", "char", "short", "int", "long", "float", "double", "signed", "unsigned", "_Bool",
    "_Complex"]

private def reservedBoth : List String :=
  ["break", "case", "const", "continue", "default", "do", "else", "enum", "extern", "for", "goto",
    "if", "inline", "register", "return", "sizeof", "static", "struct", "switch", "typedef",
    "union", "volatile", "while"] ++ builtinTypes

private def reservedPlus : List String :=
  ["bool", "auto", "catch", "class", "constexpr", "consteval", "constinit", "decltype", "delete",
    "explicit", "export", "friend", "mutable", "namespace", "new", "noexcept", "operator",
    "private", "protected", "public", "static_assert", "template", "this", "throw", "try",
    "typename", "using", "virtual"]

def nameScan (isPlus : Bool) : Scan :=
  let free (cs : List Char) : Bool :=
    let word := String.ofList cs
    !reservedBoth.contains word && !(isPlus && reservedPlus.contains word)
  Scan.such free (Scan.seq (Scan.one isNameStart) (Scan.run isNameChar))

def numberScan : Scan :=
  let signed := Scan.seq (Scan.one "eEpP".toList.contains) (Scan.one "+-".toList.contains)
  let parted := Scan.seq (Scan.text "'") (Scan.one isNameChar)
  let part := Scan.first [signed, parted, Scan.one (fun c => isNameChar c || c == '.')]
  Scan.seq (Scan.alt (Scan.one Scan.digit) (Scan.seq (Scan.text ".") (Scan.one Scan.digit)))
    (Scan.many part)

private def encoding : Scan :=
  Scan.opt (Scan.first [Scan.text "u8", Scan.one "uUL".toList.contains])

private def rawScan : Scan := fun cs => do
  let rest ← Text.dropStart? ['R', '"'] cs
  let delimiter := rest.takeWhile (fun c => c != '(' && c != '"' && c != ')')
  let inner ← Text.dropStart? ['('] (rest.drop delimiter.length)
  let (before, _) ← Text.cutFirst? (')' :: (delimiter ++ ['"'])) inner
  some (5 + 2 * delimiter.length + before.length)

def stringScan : Scan :=
  Scan.seq encoding (Scan.alt rawScan (Quotes.line '"').plain)

def characterScan : Scan := Scan.seq encoding (Quotes.line '\'').plain

private def inlineBlank (c : Char) : Bool := c == ' ' || c == '\t'

private def lineRest : Scan :=
  let joined := Scan.all [Scan.text "\\", Scan.opt (Scan.text "\r"), Scan.text "\n"]
  Scan.many (Scan.alt joined (Scan.one Scan.notNewline))

def commandScan (p : String → Bool) : Scan :=
  Scan.such
    (fun cs => p (String.ofList ((cs.drop 1).dropWhile inlineBlank)))
    (Scan.all [Scan.text "#", Scan.run inlineBlank, Scan.run isNameChar])

def directiveScan (p : String → Bool) : Scan := Scan.seq (commandScan p) lineRest

def lineEndScan : Scan :=
  Scan.all [Scan.run inlineBlank, Scan.opt Scan.blockComment, Scan.run inlineBlank,
    Scan.opt Scan.slashComment, Scan.opt (Scan.text "\r"), Scan.text "\n"]

def between (cs : List Char) : Option (Nat × Option String) :=
  match Scan.all [Scan.text "\\", Scan.opt (Scan.text "\r"), Scan.text "\n"] cs with
  | some n => some (n, none)
  | none => Scan.between [("comment", Scan.slashComment), ("comment", Scan.blockComment)] cs

end CodeOutline.Grammar.Cpp
