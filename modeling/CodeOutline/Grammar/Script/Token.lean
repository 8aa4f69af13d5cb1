import CodeOutline.Syntax.Quoted

/-!
The tokens of scripts: names, numbers, quoted texts, templates, regular expressions, and
what may stand between tokens.
-/

set_option autoImplicit false

namespace CodeOutline.Grammar.Script

open Syntax

def isBlank (c : Char) : Bool :=
  Scan.blank c || Text.isBlank c || [0x200B, 0x2060, 0xFEFF].contains c.toNat

private def punctuation : List Char :=
  ":;`\"'@#.,|^&<=>+-*/\\%?!~()[]\x7b\x7d".toList

def isNameChar (c : Char) : Bool := 0x20 ≤ c.toNat && !isBlank c && !punctuation.contains c

def isNameStart (c : Char) : Bool := isNameChar c && !c.isDigit

def wordScan : Scan := Scan.seq (Scan.one isNameStart) (Scan.run isNameChar)

def reserved : List String :=
  ["break", "case", "catch", "class", "const", "continue", "debugger", "default", "delete", "do",
    "else", "enum", "export", "extends", "false", "finally", "for", "function", "if", "import",
    "in", "instanceof", "new", "null", "return", "super", "switch", "this", "throw", "true",
    "try", "typeof", "var", "void", "while", "with"]

def nameScan : Scan := Scan.such (fun cs => !reserved.contains (String.ofList cs)) wordScan

def privateNameScan : Scan := Scan.seq (Scan.text "#") wordScan

private def digits (p : Char → Bool) : Scan :=
  Scan.seq (Scan.run1 p) (Scan.many (Scan.seq (Scan.text "_") (Scan.run1 p)))

private def oneOf (s : String) : Scan := Scan.one s.toList.contains

def numberScan : Scan :=
  let decimal := digits Scan.digit
  let exponent := Scan.opt (Scan.all [oneOf "eE", Scan.opt (oneOf "+-"), decimal])
  let big := Scan.opt (Scan.text "n")
  Scan.first [
    Scan.all [Scan.text "0", oneOf "xX", digits Scan.hexDigit, big],
    Scan.all [Scan.text "0", oneOf "bBoO", decimal, big],
    Scan.all [decimal, Scan.text ".", Scan.opt decimal, exponent],
    Scan.all [Scan.text ".", decimal, exponent],
    Scan.all [decimal, Scan.text "n"], Scan.seq decimal exponent]

def stringScan : Scan := Scan.alt (Quotes.line '"').plain (Quotes.line '\'').plain

private def template : Quotes :=
  { mark := ['`'], isOneLine := false, opening := ['$', '\x7b'] }

private def nested (cs : List Char) : Option (Nat × Quotes) :=
  match cs with
  | '`' :: _ => some (1, template)
  | '"' :: _ => some (1, Quotes.line '"')
  | '\'' :: _ => some (1, Quotes.line '\'')
  | _ => none

def templateScan : Scan
  | '`' :: cs => template.scan nested 1 ('`' :: cs)
  | _ => none

def regexScan : Scan :=
  let escaped := Scan.seq (Scan.text "\\") (Scan.one Scan.notNewline)
  let set := Scan.all [Scan.text "[",
    Scan.many (Scan.alt escaped (Scan.one (fun c => c != ']' && c != '\\' && c != '\n'))),
    Scan.text "]"]
  let plain := Scan.one (fun c => !(['/', '\\', '[', '\n'].contains c))
  let part := Scan.first [escaped, set, plain]
  let body := Scan.such (fun cs => cs.head? != some '*' && !cs.isEmpty) (Scan.many part)
  Scan.all [Scan.text "/", body, Scan.text "/", Scan.run Char.isAlpha]

def tagNameScan : Scan :=
  Scan.seq (Scan.one isNameStart)
    (Scan.run (fun c => isNameChar c || c == '-' || c == '.' || c == ':'))

def attributeScan : Scan :=
  let quoted (mark : Char) : Scan :=
    Scan.all [Scan.one (· == mark), Scan.run (· != mark), Scan.one (· == mark)]
  Scan.alt (quoted '"') (quoted '\'')

def markupTextScan : Scan := Scan.run1 (fun c => c != '<' && c != '\x7b' && c != '\x7d')

def between (cs : List Char) : Option (Nat × Option String) :=
  match cs with
  | [] => none
  | c :: _ =>
    if isBlank c then some ((cs.takeWhile isBlank).length, none)
    else ((Scan.alt Scan.slashComment Scan.blockComment) cs).map (fun n => (n, some "comment"))

end CodeOutline.Grammar.Script
