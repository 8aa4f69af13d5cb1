import CodeOutline.Syntax.Rule

/-!
Token shapes, built from a few parts. A scan tells how many characters of the text's
beginning a token takes.
-/

set_option autoImplicit false

namespace CodeOutline.Syntax.Scan

def text (s : String) : Scan := fun cs => (Text.dropStart? s.toList cs).map (fun _ => s.length)

def one (p : Char → Bool) : Scan
  | [] => none
  | c :: _ => if p c then some 1 else none

/-- As many characters of a class as follow, none included. -/
def run (p : Char → Bool) : Scan := fun cs => some (cs.takeWhile p).length

def run1 (p : Char → Bool) : Scan := fun cs =>
  match (cs.takeWhile p).length with
  | 0 => none
  | n => some n

def seq (a b : Scan) : Scan := fun cs => do
  let n ← a cs
  let m ← b (cs.drop n)
  some (n + m)

def alt (a b : Scan) : Scan := fun cs => (a cs).orElse (fun _ => b cs)

def opt (a : Scan) : Scan := alt a (fun _ => some 0)

def all : List Scan → Scan
  | [] => fun _ => some 0
  | a :: rest => seq a (all rest)

def first : List Scan → Scan
  | [] => fun _ => none
  | a :: rest => alt a (first rest)

def manyTo (a : Scan) : List Char → Scan
  | [] => fun _ => some 0
  | _ :: fuel => fun cs =>
    match a cs with
    | none | some 0 => some 0
    | some n => (manyTo a fuel (cs.drop n)).map (n + ·)

/-- As often as it fits. Every time at least one character is taken, so the text itself
bounds how often. -/
def many (a : Scan) : Scan := fun cs => manyTo a cs cs

def such (p : List Char → Bool) (a : Scan) : Scan := fun cs => do
  let n ← a cs
  if p (cs.take n) then some n else none

def through (mark : String) : Scan := fun cs =>
  (Text.cutFirst? mark.toList cs).map (fun (before, _) => before.length + mark.length)

def digit (c : Char) : Bool := c.isDigit

def hexDigit (c : Char) : Bool :=
  c.isDigit || ('a' ≤ c && c ≤ 'f') || ('A' ≤ c && c ≤ 'F')

def blank (c : Char) : Bool :=
  c == ' ' || c == '\t' || c == '\n' || c == '\r' || c.toNat == 11 || c.toNat == 12

def notNewline (c : Char) : Bool := c != '\n'

def blockComment : Scan := seq (text "/*") (through "*/")

def slashComment : Scan := seq (text "//") (run notNewline)

def between (comments : List (String × Scan)) (cs : List Char) : Option (Nat × Option String) :=
  match cs with
  | [] => none
  | c :: _ =>
    if blank c then some ((cs.takeWhile blank).length, none)
    else comments.findSome? (fun (kind, scan) => (scan cs).map (fun n => (n, some kind)))

end CodeOutline.Syntax.Scan
