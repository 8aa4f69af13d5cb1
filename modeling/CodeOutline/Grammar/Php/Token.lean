import CodeOutline.Syntax.Scan

/-!
The tokens of PHP: names, numbers, quoted texts, and what may stand between tokens.
-/

set_option autoImplicit false

namespace CodeOutline.Grammar.Php

open Syntax

def isWideBlank (c : Char) : Bool :=
  [0xA0, 0x200B, 0x2060, 0xFEFF].contains c.toNat

def isNameStart (c : Char) : Bool :=
  c.isAlpha || c == '_' || (0x80 ≤ c.toNat && !isWideBlank c)

def isNameChar (c : Char) : Bool := isNameStart c || c.isDigit

def nameScan : Scan := Scan.seq (Scan.one isNameStart) (Scan.run isNameChar)

def pathScan : Scan := Scan.seq nameScan (Scan.many (Scan.seq (Scan.text "\\") nameScan))

def qualifiedScan : Scan :=
  Scan.alt (Scan.seq (Scan.text "\\") pathScan)
    (Scan.seq nameScan (fun cs =>
      match Scan.many (Scan.seq (Scan.text "\\") nameScan) cs with
      | some 0 => none
      | found => found))

def reserved : List String :=
  ["abstract", "and", "array", "as", "break", "callable", "case", "catch", "class", "clone",
    "const", "continue", "declare", "default", "do", "echo", "else", "elseif", "enddeclare",
    "endfor", "endforeach", "endif", "endswitch", "endwhile", "extends", "final", "finally",
    "fn", "for", "foreach", "function", "global", "goto", "if", "implements", "include",
    "include_once", "instanceof", "insteadof", "interface", "list", "namespace", "new", "or",
    "print", "private", "protected", "public", "require", "require_once", "return", "static",
    "switch", "throw", "trait", "try", "unset", "use", "var", "while", "xor", "yield"]

def isReserved (cs : List Char) : Bool :=
  reserved.contains (Text.lowerAscii (String.ofList cs))

def freeNameScan : Scan := Scan.such (fun cs => !isReserved cs) nameScan

def variableScan : Scan := Scan.seq (Scan.text "$") nameScan

def isDigitOf (base : Nat) (c : Char) : Bool :=
  if base = 16 then Scan.hexDigit c else '0' ≤ c && c.toNat < '0'.toNat + base

def digits (base : Nat) : Scan :=
  Scan.seq (Scan.run1 (isDigitOf base))
    (Scan.many (Scan.seq (Scan.text "_") (Scan.run1 (isDigitOf base))))

def either (a b : Char) : Scan := Scan.one (fun c => c == a || c == b)

def integerScan : Scan :=
  Scan.first [
    Scan.all [Scan.text "0", either 'x' 'X', digits 16],
    Scan.all [Scan.text "0", either 'b' 'B', digits 2],
    Scan.all [Scan.text "0", Scan.opt (either 'o' 'O'), digits 8], digits 10]

def floatScan : Scan :=
  let exponent := Scan.all [either 'e' 'E', Scan.opt (either '+' '-'), digits 10]
  let whole := Scan.opt (digits 10)
  Scan.first [
    Scan.all [digits 10, Scan.text ".", Scan.opt (digits 10), Scan.opt exponent],
    Scan.all [whole, Scan.text ".", digits 10, Scan.opt exponent],
    Scan.all [digits 10, exponent]]

def protectedScan (mark : Char) : Scan :=
  Scan.all [Scan.one (· == mark),
    Scan.many (Scan.alt (Scan.seq (Scan.text "\\") (Scan.one (fun _ => true)))
      (Scan.one (fun c => c != mark && c != '\\'))),
    Scan.one (· == mark)]

def bracedScan : Nat → Scan
  | 0 => fun _ => none
  | depth + 1 => Scan.all [Scan.text "\x7b",
      Scan.many (Scan.first [protectedScan '\'', protectedScan '"', bracedScan depth,
        Scan.one (fun c => c != '\x7b' && c != '\x7d' && c != '\'' && c != '"')]),
      Scan.text "\x7d"]

def doubleQuotedScan : Scan :=
  let code : Scan := fun cs =>
    match cs with
    | '\x7b' :: '$' :: _ => bracedScan 16 cs
    | '$' :: '\x7b' :: _ => (bracedScan 16 cs.tail).map (1 + ·)
    | _ => none
  Scan.all [Scan.text "\"",
    Scan.many (Scan.first [Scan.seq (Scan.text "\\") (Scan.one (fun _ => true)), code,
      Scan.one (fun c => c != '"' && c != '\\')]),
    Scan.text "\""]

/-- The length up to and including the first line that begins with the closing word, blanks
before it allowed. -/
def closingLine (word : List Char) : Bool → List Char → Option Nat
  | _, [] => none
  | lineStart, c :: cs =>
    let here : Option Nat :=
      if lineStart then
        let blanks := ((c :: cs).takeWhile (fun d => d == ' ' || d == '\t')).length
        match Text.dropStart? word ((c :: cs).drop blanks) with
        | some (d :: _) => if isNameChar d then none else some (blanks + word.length)
        | some [] => some (blanks + word.length)
        | none => none
      else none
    here.orElse (fun _ => (closingLine word (c == '\n') cs).map (· + 1))

/-- A text of whole lines between a word behind three angle brackets and a line that begins
with the same word; `quoted` tells whether the word stands in single quotes. -/
def linesScan (quoted : Bool) : Scan := fun cs => do
  let opening ← (Scan.seq (Scan.text "<<<") (Scan.run (fun c => c == ' ' || c == '\t'))) cs
  let rest := cs.drop opening
  let mark : Option Char := match rest with
    | '\'' :: _ => some '\''
    | '"' :: _ => some '"'
    | _ => none
  if (mark == some '\'') != quoted then none
  else
    let before := if mark.isSome then 1 else 0
    let word := rest.drop before
    let n ← nameScan word
    let after := word.drop n
    let close ← match mark with
      | some m => (Scan.one (· == m)) after
      | none => some 0
    let line := after.drop close
    let blanks := (line.takeWhile (fun c => c == ' ' || c == '\t' || c == '\r')).length
    match line.drop blanks with
    | '\n' :: body =>
      let total ← closingLine (word.take n) true body
      some (opening + before + n + close + blanks + 1 + total)
    | _ => none

def restOfLine : List Char → Nat
  | [] => 0
  | '\n' :: _ => 0
  | '?' :: '>' :: _ => 0
  | _ :: cs => restOfLine cs + 1

def lineComment : Scan := fun cs =>
  match cs with
  | '/' :: '/' :: rest => some (2 + restOfLine rest)
  | '#' :: '[' :: _ => none
  | '#' :: rest => some (1 + restOfLine rest)
  | _ => none

def tagScan : Scan := fun cs =>
  match cs with
  | '<' :: '?' :: '=' :: _ => some 3
  | '<' :: '?' :: p :: h :: q :: _ =>
    if Text.lowerAscii (String.ofList [p, h, q]) == "php" then some 5 else some 2
  | '<' :: '?' :: _ => some 2
  | _ => none

def textLength (cs : List Char) : Nat :=
  match cs with
  | [] => 0
  | c :: rest => if (tagScan (c :: rest)).isSome then 0 else textLength rest + 1

def interlude : Scan := fun cs =>
  match cs with
  | '?' :: '>' :: rest =>
    let n := textLength rest
    some (2 + n + (tagScan (rest.drop n)).getD 0)
  | _ => none

def between (cs : List Char) : Option (Nat × Option String) :=
  match cs with
  | [] => none
  | c :: _ =>
    if Scan.blank c || isWideBlank c then
      some ((cs.takeWhile (fun c => Scan.blank c || isWideBlank c)).length, none)
    else
      [("comment", lineComment), ("comment", Scan.blockComment),
        ("text_interpolation", interlude)].findSome?
        (fun (kind, scan) => (scan cs).map (fun n => (n, some kind)))

end CodeOutline.Grammar.Php
