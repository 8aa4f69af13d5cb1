import CodeOutline.Syntax.Scan
import CodeOutline.Text.Letter

/-!
The tokens of Java: identifiers, numbers, quoted texts.
-/

set_option autoImplicit false

namespace CodeOutline.Grammar.Java

open Syntax

def isNameStart (c : Char) : Bool := Text.isLetter c || c == '_' || c == '$'

def isNameChar (c : Char) : Bool := isNameStart c || c.isDigit

def reserved : List String :=
  ["abstract", "assert", "boolean", "break", "byte", "case", "catch", "char", "class",
    "continue", "default", "do", "double", "else", "enum", "extends", "final", "finally",
    "float", "for", "if", "implements", "import", "instanceof", "int", "interface", "long",
    "native", "new", "package", "private", "protected", "public", "return", "short", "static",
    "strictfp", "super", "switch", "synchronized", "this", "throw", "throws", "transient",
    "try", "void", "volatile", "while", "true", "false", "null"]

def nameScan : Scan :=
  Scan.such (fun cs => !reserved.contains (String.ofList cs))
    (Scan.seq (Scan.one isNameStart) (Scan.run isNameChar))

def digits (p : Char → Bool) : Scan :=
  Scan.seq (Scan.run1 p) (Scan.many (Scan.seq (Scan.run1 (· == '_')) (Scan.run1 p)))

def oneOf (s : String) : Scan := Scan.one s.toList.contains

def exponent (marks : String) : Scan :=
  Scan.all [oneOf marks, Scan.opt (oneOf "+-"), digits Scan.digit]

def isOctal (c : Char) : Bool := '0' ≤ c && c ≤ '7'

def floatEnd : Scan := Scan.opt (oneOf "fFdD")

def floatScan : Scan :=
  let decimal := digits Scan.digit
  Scan.first [
    Scan.all [decimal, Scan.text ".", Scan.opt decimal, Scan.opt (exponent "eE"), floatEnd],
    Scan.all [Scan.text ".", decimal, Scan.opt (exponent "eE"), floatEnd],
    Scan.all [decimal, exponent "eE", floatEnd], Scan.all [decimal, oneOf "fFdD"],
    Scan.all [Scan.text "0", oneOf "xX", Scan.opt (digits Scan.hexDigit),
      Scan.opt (Scan.seq (Scan.text ".") (Scan.opt (digits Scan.hexDigit))), exponent "pP",
      floatEnd]]

def integerScan : Scan :=
  let long := Scan.opt (oneOf "lL")
  Scan.first [
    Scan.all [Scan.text "0", oneOf "xX", digits Scan.hexDigit, long],
    Scan.all [Scan.text "0", oneOf "bB", digits (fun c => c == '0' || c == '1'), long],
    Scan.all [Scan.text "0", oneOf "oO", digits isOctal, long],
    Scan.all [digits Scan.digit, long]]

def protectedPair : Scan := Scan.seq (Scan.text "\\") (Scan.one (fun _ => true))

def quotedChar (mark : Char) : Scan :=
  Scan.alt protectedPair (Scan.one (fun c => c != mark && c != '\\' && c != '\n'))

def stringScan : Scan :=
  let notClosing : Scan := fun cs =>
    match cs with
    | '"' :: '"' :: '"' :: _ => none
    | '\\' :: _ :: _ => some 2
    | _ :: _ => some 1
    | [] => none
  Scan.alt (Scan.all [Scan.text "\"\"\"", Scan.many notClosing, Scan.text "\"\"\""])
    (Scan.all [Scan.text "\"", Scan.many (quotedChar '"'), Scan.text "\""])

def characterScan : Scan :=
  Scan.all [Scan.text "'", quotedChar '\'', Scan.many (quotedChar '\''), Scan.text "'"]

end CodeOutline.Grammar.Java
