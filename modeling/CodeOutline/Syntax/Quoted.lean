import CodeOutline.Syntax.Scan

/-!
Quoted texts that may hold code: where such a text ends, with the quoted texts inside its
code passed over.
-/

set_option autoImplicit false

namespace CodeOutline.Syntax

/-- How a quoted text is written. -/
structure Quotes where
  /-- What ends the text. -/
  mark : List Char
  /-- A backslash protects the next character. -/
  hasEscapes : Bool := true
  /-- The mark written twice stands for itself. -/
  isDoubled : Bool := false
  isOneLine : Bool := true
  /-- What begins code up to a closing brace; a single brace written twice stands for
  itself. Empty if there is no code. -/
  opening : List Char := []

namespace Quotes

/-- What encloses a place inside a quoted text: quotes, or braces around code. -/
inductive Enclosure
  | quoted (q : Quotes)
  | code

/-- What to do at a place in a quoted text. -/
inductive Step
  /-- So many characters belong to the text. -/
  | pass (n : Nat)
  /-- So many characters end it. -/
  | leave (n : Nat)
  /-- So many characters begin code. -/
  | enter (n : Nat)
  /-- The text may not go on here. -/
  | fail

def step (q : Quotes) (cs : List Char) : Step :=
  match cs with
  | [] => .fail
  | c :: _ =>
    if q.hasEscapes && c = '\\' then .pass 2
    else match Text.dropStart? q.mark cs with
      | some rest =>
        if q.isDoubled && (Text.dropStart? q.mark rest).isSome then .pass (2 * q.mark.length)
        else .leave q.mark.length
      | none =>
        if q.isOneLine && c = '\n' then .fail
        else if q.opening.isEmpty then .pass 1
        else match Text.dropStart? q.opening cs with
          | some rest =>
            if q.opening.length = 1 && (Text.dropStart? q.opening rest).isSome then .pass 2
            else .enter q.opening.length
          | none => .pass 1

/-- The length up to the end of the outermost text, `skip` characters passed unread. What
begins a quoted text inside code is told by `nested`: its length, and how the text is
written. -/
def endFrom (nested : List Char → Option (Nat × Quotes)) (stack : List Enclosure)
    (count skip : Nat) : List Char → Option Nat
  | [] => none
  | c :: cs =>
    match skip, stack with
    | k + 1, _ => endFrom nested stack (count + 1) k cs
    | 0, [] => none
    | 0, .quoted q :: outer =>
      match q.step (c :: cs) with
      | .fail => none
      | .pass n => endFrom nested stack (count + 1) (n - 1) cs
      | .enter n => endFrom nested (.code :: stack) (count + 1) (n - 1) cs
      | .leave n =>
        if outer.isEmpty then some (count + n)
        else endFrom nested outer (count + 1) (n - 1) cs
    | 0, .code :: outer =>
      match nested (c :: cs) with
      | some (n, q) => endFrom nested (.quoted q :: stack) (count + 1) (n - 1) cs
      | none =>
        endFrom nested (match c with
          | '\x7b' => .code :: stack
          | '\x7d' => outer
          | _ => stack) (count + 1) 0 cs

def scan (q : Quotes) (nested : List Char → Option (Nat × Quotes)) (opening : Nat) : Scan :=
  fun cs => endFrom nested [.quoted q] 0 opening cs

/-- A text between two equal marks, without code. -/
def plain (q : Quotes) : Scan := fun cs =>
  if (Text.dropStart? q.mark cs).isSome then q.scan (fun _ => none) q.mark.length cs else none

/-- Text on one line between two equal characters. -/
def line (mark : Char) : Quotes := { mark := [mark] }

end Quotes

end CodeOutline.Syntax
