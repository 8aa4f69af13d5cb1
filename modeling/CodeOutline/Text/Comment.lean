import CodeOutline.Text.Search
import CodeOutline.Token.Basic

/-!
Approximate reading of line-oriented sources: comments and bracketed bodies are cut out by
one pass of leftmost replacements, and names are found again by their first occurrence.
-/

set_option autoImplicit false

namespace CodeOutline.Text

/-- What a match at a place takes away: a count of characters, at least one, and the text
left in their stead. The truth value says whether the place begins a line. -/
abbrev Matcher := Bool → List Char → Option (Nat × List Char)

def replaceFrom (m : Matcher) : Nat → Bool → List Char → List Char
  | _, _, [] => []
  | skip + 1, _, c :: cs => replaceFrom m skip (c == '\n') cs
  | 0, lineStart, c :: cs =>
    match m lineStart (c :: cs) with
    | some (taken, left) => left ++ replaceFrom m (taken - 1) (c == '\n') cs
    | none => c :: replaceFrom m 0 (c == '\n') cs

def replaceMatches (m : Matcher) (cs : List Char) : List Char := replaceFrom m 0 true cs

def blockLength? : List Char → Option Nat
  | [] => none
  | '*' :: '/' :: _ => some 2
  | _ :: cs => (blockLength? cs).map (· + 1)

def lineLength (cs : List Char) : Nat := (cs.takeWhile (· != '\n')).length

/-- A line comment with the character before it, unless that is a backslash or a colon, or
one at the beginning of a line. -/
def lineComment : Matcher := fun lineStart cs =>
  match cs with
  | c :: '/' :: '/' :: rest =>
    if c != '\\' && c != ':' then some (3 + lineLength rest, [c])
    else none
  | '/' :: '/' :: rest => if lineStart then some (2 + lineLength rest, []) else none
  | _ => none

def comment : Matcher := fun lineStart cs =>
  match cs with
  | '/' :: '*' :: rest =>
    match blockLength? rest with
    | some n => some (2 + n, [])
    | none => lineComment lineStart cs
  | _ => lineComment lineStart cs

/-- The text without closed block comments and without line comments. -/
def stripComments (cs : List Char) : List Char := replaceMatches comment cs

def bodyLength? : List Char → Option Nat
  | [] => none
  | c :: cs =>
    match cs with
    | ']' :: _ => if isBlank c then some 2 else (bodyLength? cs).map (· + 1)
    | _ => (bodyLength? cs).map (· + 1)

def lambda : Matcher := fun _ cs =>
  match cs with
  | '[' :: rest => (bodyLength? rest).map (fun n => (1 + n, ['[']))
  | _ => none

def stripLambdas (cs : List Char) : List Char := replaceMatches lambda cs

def byteColumn? (line needle : List Char) : Option Nat :=
  (cutFirst? needle line).map (fun (before, _) => byteCount before)

def occurrenceFrom (needle : List Char) : Nat → List (List Char) → Option Span
  | _, [] => none
  | n, line :: rest =>
    match byteColumn? line needle with
    | some column => some (.onLine n column (byteCount needle))
    | none => occurrenceFrom needle (n + 1) rest

def firstOccurrence? (text needle : String) : Option Span :=
  if needle.isEmpty then none
  else occurrenceFrom needle.toList 0 (lineChars text.toList)

def placeInLine (line : Nat) (content needle : String) : Span :=
  .onLine line ((byteColumn? content.toList needle.toList).getD 0) (byteCount needle.toList)

end CodeOutline.Text
