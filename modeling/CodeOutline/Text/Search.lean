import CodeOutline.Text.Blank

/-!
Looking for one text inside another, by characters, with columns counted in UTF-8 bytes.
-/

set_option autoImplicit false

namespace CodeOutline.Text

def byteCount (cs : List Char) : Nat := cs.foldl (fun n c => n + c.utf8Size) 0

def dropStart? : List Char → List Char → Option (List Char)
  | [], cs => some cs
  | _ :: _, [] => none
  | p :: ps, c :: cs => if p = c then dropStart? ps cs else none

def dropEnd? (ending cs : List Char) : Option (List Char) :=
  (dropStart? ending.reverse cs.reverse).map List.reverse

def afterStart? (start s : String) : Option String :=
  (dropStart? start.toList s.toList).map String.ofList

def beforeEnd? (ending s : String) : Option String :=
  (dropEnd? ending.toList s.toList).map String.ofList

def startsWith (s start : String) : Bool := (dropStart? start.toList s.toList).isSome

def endsWith (s ending : String) : Bool := (dropEnd? ending.toList s.toList).isSome

def cutFirst? (needle : List Char) : List Char → Option (List Char × List Char)
  | [] => if needle.isEmpty then some ([], []) else none
  | c :: cs =>
    match dropStart? needle (c :: cs) with
    | some rest => some ([], rest)
    | none => (cutFirst? needle cs).map (fun (before, rest) => (c :: before, rest))

def cutLast? (needle cs : List Char) : Option (List Char × List Char) :=
  (cutFirst? needle.reverse cs.reverse).map
    (fun (after, before) => (before.reverse, after.reverse))

/-- The string occurs somewhere in the text. -/
def contains (s needle : String) : Bool := (cutFirst? needle.toList s.toList).isSome

def dropLeft (p : Char → Bool) (s : String) : String := String.ofList (s.toList.dropWhile p)

def dropRight (p : Char → Bool) (s : String) : String :=
  String.ofList (s.toList.reverse.dropWhile p).reverse

def unquote (s : String) : String :=
  let t := trimChars s.toList
  let layer (quote : Char) : Option (List Char) :=
    (dropStart? [quote] t).bind (dropEnd? [quote])
  String.ofList ((layer '"').orElse (fun _ => layer '\'') |>.getD t)

end CodeOutline.Text
