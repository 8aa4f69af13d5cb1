import CodeOutline.Syntax.Quoted
import CodeOutline.Yaml.Scalar

/-!
The tokens of YAML. Where a scalar without quotes ends depends on the indentation of the block
around it, and on whether brackets enclose it.
-/

set_option autoImplicit false

namespace CodeOutline.Grammar.Yaml

open Syntax
open CodeOutline.Yaml (isSpace BlockHeader)

def endsWord : List Char → Bool
  | [] => true
  | c :: _ => isSpace c || c == '\n'

def isMarker (cs : List Char) : Bool :=
  ["---", "..."].any (fun m => (Text.dropStart? m.toList cs).any endsWord)

def margin (c : Cursor) : Nat :=
  match c.indents with
  | [] => 0
  | column :: _ => column + 1

private def isBracket (c : Char) : Bool := ",[]\x7b\x7d".toList.contains c

/-- The length of a scalar without quotes up to its last character that is no blank. `gap`
tells that a blank precedes, and `best` is the length so far. -/
def plainEnd (isFlow : Bool) (margin : Nat) (gap : Bool) (column count best : Nat) :
    List Char → Option Nat
  | [] => some best
  | c :: cs =>
    if isSpace c then plainEnd isFlow margin true (column + 1) (count + 1) best cs
    else if c = '\n' then plainEnd isFlow margin true 0 (count + 1) best cs
    else if gap && (c == '#' || (!isFlow && column < margin)
        || (column == 0 && isMarker (c :: cs))) then some best
    else if c = ':' && endsWord cs then some best
    else if isFlow && c == ':' && cs.head?.any (fun d => d == '?' || isBracket d) then none
    else if isFlow && isBracket c then some best
    else plainEnd isFlow margin false (column + 1) (count + 1) (count + 1) cs

private def startsPlain (c : Cursor) (cs : List Char) : Bool :=
  match cs with
  | [] => false
  | d :: ds =>
    !endsWord cs && !(c.place.column == 0 && isMarker cs) &&
      (!("-?:,[]\x7b\x7d#&*!|>'\"%@".toList.contains d || d.toNat == 0x60) ||
        (d == '-' && !endsWord ds) || (c.depth == 0 && (d == '?' || d == ':') && !endsWord ds))

def plainScan (c : Cursor) : Scan := fun cs =>
  if startsPlain c cs then plainEnd (c.depth != 0) (margin c) false c.place.column 0 0 cs
  else none

def plainLineScan (c : Cursor) : Scan := fun cs => plainScan c (cs.takeWhile (· != '\n'))

private def hasMarkerLine (cs : List Char) : Bool :=
  ((Text.splitChars (· == '\n') cs).drop 1).any isMarker

private def severalLines (q : Quotes) : Scan := Scan.such (fun cs => !hasMarkerLine cs) q.plain

def singleScan : Scan :=
  severalLines { mark := ['\''], hasEscapes := false, isDoubled := true, isOneLine := false }

def doubleScan : Scan := severalLines { mark := ['"'], isOneLine := false }

def oneLine (scan : Scan) : Scan := Scan.such (fun cs => !cs.contains '\n') scan

private def isNameChar (c : Char) : Bool := c.isAlphanum || c == '_' || c == '-'

def nameScan (sign : String) : Scan := fun cs => do
  let n ← Scan.seq (Scan.text sign) (Scan.run1 isNameChar) cs
  match cs.drop n with
  | [] => some n
  | c :: rest =>
    if endsWord (c :: rest) || "?:,]\x7d%@".toList.contains c || c.toNat == 0x60 then some n
    else none

private def isTagChar (c : Char) : Bool :=
  isNameChar c || ";/?:@&=+$.!~*'()%<>".toList.contains c

def tagScan : Scan := fun cs => do
  let n ← Scan.seq (Scan.text "!") (Scan.run isTagChar) cs
  if endsWord (cs.drop n) || (cs.drop n).head? == some ',' then some n else none

def indicator (sign : String) : Scan := fun cs =>
  if (Text.dropStart? sign.toList cs).any endsWord then some sign.length else none

def markerScan (sign : String) (c : Cursor) : Scan := fun cs =>
  if c.place.column == 0 then indicator sign cs else none

def directiveScan (c : Cursor) : Scan := fun cs =>
  let line := cs.takeWhile (· != '\n')
  if c.place.column == 0 && (["%YAML 1.1", "%YAML 1.2"].any (fun s =>
      (Text.dropStart? s.toList line).any endsWord)) then some line.length
  else none

/-! Blocks of lines -/

private def headerMark (h : BlockHeader) (c : Char) : Option BlockHeader :=
  if c = '+' then some { h with chomping := .keep }
  else if c = '-' then some { h with chomping := .strip }
  else if '1' ≤ c && c ≤ '9' then some { h with indent := some (c.toNat - 48) }
  else none

/-- How a block of lines is read, from the line that begins it: a sign and at most one mark of
each kind, then at most a comment. -/
def header? (line : List Char) : Option BlockHeader :=
  match line with
  | [] => none
  | sign :: cs =>
    if sign != '|' && sign != '>' then none
    else
      let marks := cs.takeWhile (fun c => c == '+' || c == '-' || c.isDigit)
      let rest := (cs.drop marks.length).dropWhile isSpace
      if marks.length ≤ 2 && (marks.filter Char.isDigit).length ≤ 1
          && (marks.filter (fun c => !c.isDigit)).length ≤ 1
          && (rest.isEmpty || rest.head? == some '#') then
        marks.foldlM headerMark { isFolded := sign == '>', chomping := .clip, indent := none }
      else none

def headerScan : Scan := fun cs =>
  let line := cs.takeWhile (· != '\n')
  (header? line).map (fun _ => line.length)

/-- The column where the lines of a block stand: what the header says, or else where its first
line with text stands, or at the least where the longest line of blanks before it ends. -/
def blockColumn? (margin : Nat) (cs : List Char) : Option Nat :=
  match header? (cs.takeWhile (· != '\n')) with
  | none => none
  | some header =>
    match header.indent with
    | some n => some (margin - 1 + n)
    | none =>
      let lines := ((Text.splitChars (· == '\n') cs).drop 1).map (·.span (· == ' '))
      let isEmpty (line : List Char × List Char) : Bool := line.2.isEmpty
      let first := (lines.dropWhile isEmpty).take 1
      if first.any (fun line => line.2.head? == some '\t') then none
      else
        let columns := (lines.takeWhile isEmpty ++ first).map (·.1.length)
        some (columns.foldl max (max margin 1))

/-- The end of a line and the empty lines behind it. A line of at most so many blanks is
empty. -/
def lineEnds (column : Nat) : Scan :=
  let blanks : Scan := fun cs =>
    let n := (cs.takeWhile (· == ' ')).length
    if n ≤ column then some n else none
  Scan.seq (Scan.text "\n") (Scan.many (Scan.seq blanks (Scan.text "\n")))

/-! Between tokens -/

def between (depth : Nat) : List Char → Option (Nat × Option String)
  | [] => none
  | c :: cs =>
    if isSpace c then some (((c :: cs).takeWhile isSpace).length, none)
    else if c = '#' then some (((c :: cs).takeWhile (· != '\n')).length, none)
    else if c = '\n' then
      let blanks := (cs.takeWhile (· == ' ')).length
      if depth = 0 && (cs.drop blanks).head? == some '\t' then none
      else some (blanks + 1, none)
    else none

end CodeOutline.Grammar.Yaml
