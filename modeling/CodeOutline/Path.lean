import CodeOutline.Text.Raw
import CodeOutline.Text.Search

/-!
File paths as raw text and as components. Repeated slashes and single dots say nothing, but a
dot at the beginning is kept.
-/

set_option autoImplicit false

namespace CodeOutline.Path

open Text

inductive Component
  | root | here | parent
  | name (r : RawText)
deriving DecidableEq, Repr, Inhabited

def slash : UInt8 := 0x2F

def isAbsolute (path : RawText) : Bool := path.bytes.head? == some slash

/-- What stands between the slashes of a path, before the first one and behind the last one. -/
def pieces (path : RawText) : List RawText := (splitChars (· == slash) path.bytes).map RawText.mk

/-- Pieces with a slash between two of them. -/
def ofPieces (pieces : List RawText) : RawText := ⟨[slash].intercalate (pieces.map RawText.bytes)⟩

def component (piece : RawText) : Component := if piece = ".." then .parent else .name piece

def components (path : RawText) : List Component :=
  let here : RawText := "."
  let pieces := (pieces path).filter (fun piece => !piece.isEmpty)
  let lead : List Component :=
    if isAbsolute path then [.root] else if pieces.head? = some here then [.here] else []
  lead ++ (pieces.filter (· != here)).map component

def rank : Component → Nat
  | .root => 0
  | .here => 1
  | .parent => 2
  | .name _ => 3

def componentLt (a b : Component) : Bool :=
  match a, b with
  | .name r, .name s => decide (r.bytes < s.bytes)
  | a, b => decide (rank a < rank b)

def leComponents : List Component → List Component → Bool
  | [], _ => true
  | _ :: _, [] => false
  | a :: as, b :: bs => if a = b then leComponents as bs else componentLt a b

/-- The order of paths by their components. -/
def le (a b : RawText) : Bool := leComponents (components a) (components b)

/-- Two spellings of the same components. -/
def same (a b : RawText) : Bool := components a == components b

/-- The last component, when it is a name. -/
def fileName? (path : RawText) : Option RawText :=
  match (components path).getLast? with
  | some (.name name) => some name
  | _ => none

def dot : UInt8 := 0x2E

/-- What is behind the last dot of the file name, unless that dot begins the name, or what is
there is no text. -/
def extension? (path : RawText) : Option String :=
  (fileName? path).bind (fun name =>
    match splitChars (· == dot) name.bytes with
    | [] | [_] | [[], _] => none
    | _ :: parts => parts.getLast?.bind (fun part => (RawText.mk part).text?))

def join (base path : String) : String :=
  if isAbsolute path then path
  else if base.isEmpty || endsWith base "/" then base ++ path
  else base ++ "/" ++ path

/-- The same for paths that need not be text. -/
def joinRaw (base path : RawText) : RawText :=
  if isAbsolute path then path
  else if base.isEmpty || base.bytes.getLast? == some slash then ⟨base.bytes ++ path.bytes⟩
  else ⟨base.bytes ++ slash :: path.bytes⟩

def enter (names : List RawText) (piece : RawText) : List RawText :=
  if piece.isEmpty || piece = "." then names
  else if piece = ".." then names.dropLast
  else names ++ [piece]

/-- The names on the way from the root to a path, `base` being where other paths begin. -/
def resolve (base : List RawText) (path : RawText) : List RawText :=
  (pieces path).foldl enter (if isAbsolute path then [] else base)

def Component.piece : Component → RawText
  | .root => ""
  | .here => "."
  | .parent => ".."
  | .name r => r

def ofComponents : List Component → RawText
  | [.root] => "/"
  | cs => ofPieces (cs.map Component.piece)

def parent? (path : RawText) : Option RawText :=
  let cs := components path
  match cs.getLast? with
  | none | some .root => none
  | some _ => some (ofComponents cs.dropLast)

def saysNothing (piece : RawText) : Bool := piece.isEmpty || piece == "."

def dropPieces : Nat → List RawText → List RawText
  | 0, pieces => pieces
  | _ + 1, [] => []
  | n + 1, piece :: rest =>
    if saysNothing piece then dropPieces (n + 1) rest else dropPieces n rest

def dropEnd (pieces : List RawText) : List RawText :=
  (pieces.reverse.dropWhile saysNothing).reverse

def relativeTo (base path : RawText) : RawText :=
  if base.isEmpty then
    match dropEnd (pieces path) with
    | [] => ofComponents (components path)
    | pieces => ofPieces pieces
  else if (components base).isPrefixOf (components path) then
    let named := (components base).filter (fun c => c != .root && c != .here)
    let rest := (dropPieces named.length (pieces path)).dropWhile saysNothing
    ofPieces (dropEnd rest)
  else path

end CodeOutline.Path
