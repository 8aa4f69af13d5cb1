/-!
The texts of YAML scalars. Between two words of a scalar on several lines one line end counts
as a space, and further line ends are kept. Blocks of lines are either kept as they are or
joined in the same way.
-/

set_option autoImplicit false

namespace CodeOutline.Yaml

def isSpace (c : Char) : Bool := c == ' ' || c == '\t'

/-- A character, or a line end in front of which a backslash stands. -/
inductive Piece
  /-- A character that joining lines does not touch. -/
  | fixed (c : Char)
  /-- A character that joining lines may drop. -/
  | free (c : Char)
  | joint

/-- The blanks since the last character that is none. -/
inductive Gap
  | spaces (cs : List Char)
  /-- So many line ends behind the first one, which a backslash may have taken away. -/
  | lines (more : Nat) (isJoint : Bool)

namespace Gap

def chars : Gap → List Char
  | .spaces cs => cs
  | .lines 0 isJoint => if isJoint then [] else [' ']
  | .lines more _ => List.replicate more '\n'

def space (c : Char) : Gap → Gap
  | .spaces cs => .spaces (cs ++ [c])
  | gap => gap

def newline : Gap → Gap
  | .spaces _ => .lines 0 false
  | .lines more isJoint => .lines (more + 1) isJoint

end Gap

def joinLines (gap : Gap) : List Piece → List Char
  | [] => gap.chars
  | .fixed c :: rest => gap.chars ++ c :: joinLines (.spaces []) rest
  | .joint :: rest => gap.chars ++ joinLines (.lines 0 true) rest
  | .free c :: rest =>
    if c = '\n' then joinLines gap.newline rest
    else if isSpace c then joinLines (gap.space c) rest
    else gap.chars ++ c :: joinLines (.spaces []) rest

private def joined (pieces : List Piece) : String :=
  String.ofList (joinLines (.spaces []) pieces)

def plainText (cs : List Char) : String := joined (cs.map .free)

def singlePieces : List Char → List Piece
  | '\'' :: '\'' :: cs => .fixed '\'' :: singlePieces cs
  | c :: cs => .free c :: singlePieces cs
  | [] => []

def singleText (cs : List Char) : String := joined (singlePieces cs)

def escapes : List (Char × Nat) :=
  [('0', 0), ('a', 7), ('b', 8), ('t', 9), ('\t', 9), ('n', 10), ('v', 11), ('f', 12), ('r', 13),
    ('e', 27), (' ', 32), ('"', 34), ('/', 47), ('\\', 92), ('N', 0x85), ('_', 0xA0), ('L', 0x2028),
    ('P', 0x2029)]

private def hexValue? (c : Char) : Option Nat :=
  if c.isDigit then some (c.toNat - 48)
  else if 'a' ≤ c && c ≤ 'f' then some (c.toNat - 87)
  else if 'A' ≤ c && c ≤ 'F' then some (c.toNat - 55)
  else none

def codeLength : Char → Nat
  | 'x' => 2
  | 'u' => 4
  | 'U' => 8
  | _ => 0

/-- What the reading of a quoted text waits for. -/
inductive Awaited
  | any
  /-- The character behind a backslash. -/
  | escape
  /-- So many more digits of a code. -/
  | digits (left code : Nat)

private def charOf? (code : Nat) : Option Char :=
  if code < 0xD800 || (0xDFFF < code && code < 0x110000) then some (Char.ofNat code) else none

def doublePieces? : Awaited → List Char → Option (List Piece)
  | .any, [] => some []
  | _, [] => none
  | .any, c :: cs =>
    if c = '\\' then doublePieces? .escape cs else (doublePieces? .any cs).map (.free c :: ·)
  | .escape, c :: cs =>
    if c = '\n' then (doublePieces? .any cs).map (.joint :: ·)
    else match codeLength c with
      | 0 =>
        match escapes.lookup c with
        | some code => (doublePieces? .any cs).map (.fixed (Char.ofNat code) :: ·)
        | none => none
      | n => doublePieces? (.digits n 0) cs
  | .digits left code, c :: cs =>
    match hexValue? c with
    | none => none
    | some d =>
      if left ≤ 1 then
        match charOf? (16 * code + d) with
        | some c => (doublePieces? .any cs).map (.fixed c :: ·)
        | none => none
      else doublePieces? (.digits (left - 1) (16 * code + d)) cs

def doubleText? (cs : List Char) : Option String := (doublePieces? .any cs).map joined

/-! Blocks of lines -/

/-- Which line ends at the end of a block are kept. -/
inductive Chomping
  | strip | clip | keep
deriving DecidableEq, Repr

/-- How a block of lines is read. -/
structure BlockHeader where
  isFolded : Bool
  chomping : Chomping
  /-- How much farther than the block around the lines are indented, when it is said. -/
  indent : Option Nat
deriving Repr

/-- A line of a block, and how many line ends follow it. -/
structure BlockLine where
  chars : List Char
  ends : Nat

private def between (isFolded : Bool) (a b : List Char) (ends : Nat) : List Char :=
  let isIndented (cs : List Char) : Bool := cs.head?.any isSpace
  if isFolded && !isIndented a && !isIndented b then
    if ends = 1 then [' '] else List.replicate (ends - 1) '\n'
  else List.replicate ends '\n'

private def lastEnds (chomping : Chomping) (ends : Nat) : List Char :=
  match chomping with
  | .strip => []
  | .clip => List.replicate (min ends 1) '\n'
  | .keep => List.replicate ends '\n'

private def linesText (header : BlockHeader) : List BlockLine → List Char
  | [] => []
  | [last] => last.chars ++ lastEnds header.chomping last.ends
  | a :: b :: rest =>
    a.chars ++ between header.isFolded a.chars b.chars a.ends ++ linesText header (b :: rest)

def blockText (header : BlockHeader) (leading : Nat) (lines : List BlockLine) : String :=
  String.ofList (match lines with
    | [] => if header.chomping = .keep then List.replicate leading '\n' else []
    | lines => List.replicate leading '\n' ++ linesText header lines)

end CodeOutline.Yaml
