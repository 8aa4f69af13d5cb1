import CodeOutline.Path

/-!
Files and directories by the names that lead to them from the root. Looking never changes
anything; each change gives a new file system, also when it stops half way with an error.
-/

set_option autoImplicit false

namespace CodeOutline

/-- What is in a file: text, or bytes that are no text in UTF-8. -/
inductive Content
  | text (s : String)
  | bytes (bs : List UInt8)
deriving DecidableEq, Repr, Inhabited

inductive Entry
  | directory
  | file (content : Content)
deriving DecidableEq, Repr, Inhabited

/-- Why an access to a file fails. -/
inductive IOFault
  | missing | occupied | notDirectory | isDirectory | notText | full
deriving DecidableEq, Repr

def IOFault.message : IOFault → String
  | .missing => "No such file or directory (os error 2)"
  | .occupied => "File exists (os error 17)"
  | .notDirectory => "Not a directory (os error 20)"
  | .isDirectory => "Is a directory (os error 21)"
  | .notText => "stream did not contain valid UTF-8"
  | .full => "No space left on device (os error 28)"

/-- The names that lead to an entry from the root. -/
abbrev Location := List RawText

structure FileSystem where
  entries : List (Location × Entry) := []
  /-- Where paths begin that do not begin at the root. -/
  current : Location := []
  /-- The number of bytes that a new file can take, if there is a limit. -/
  room : Option Nat := none
deriving Repr, Inhabited

namespace FileSystem

/-- What is at a location; at the root there is always a directory. -/
def at? (fs : FileSystem) (l : Location) : Option Entry :=
  if l.isEmpty then some .directory else fs.entries.lookup l

/-- The file system with an entry at a location, in the place of what was there. -/
def put (fs : FileSystem) (l : Location) (e : Entry) : FileSystem :=
  { fs with entries := fs.entries.filter (·.1 != l) ++ [(l, e)] }

def remove (fs : FileSystem) (l : Location) : FileSystem :=
  { fs with entries := fs.entries.filter (·.1 != l) }

def names (fs : FileSystem) (l : Location) : List RawText :=
  fs.entries.filterMap (fun (other, _) =>
    match other.getLast? with
    | some name => if other.dropLast = l then some name else none
    | none => none)

/-! Paths -/

/-- The location behind the pieces of a path. All that a piece is looked up in has to be a
directory; nothing needs to be at the location itself. -/
def walk (fs : FileSystem) : Location → List RawText → Except IOFault Location
  | l, [] => .ok l
  | l, piece :: rest =>
    match fs.at? l with
    | none => .error .missing
    | some (.file _) => .error .notDirectory
    | some .directory =>
      if piece.isEmpty || piece = "." then walk fs l rest
      else if piece = ".." then walk fs l.dropLast rest
      else walk fs (l ++ [piece]) rest

def origin (fs : FileSystem) (path : RawText) : Location :=
  if Path.isAbsolute path then [] else fs.current

/-- The location that a path leads to. -/
def locate (fs : FileSystem) (path : RawText) : Except IOFault Location :=
  if path.isEmpty then .error .missing else fs.walk (fs.origin path) (Path.pieces path)

def look (fs : FileSystem) (path : RawText) : Except IOFault Entry := do
  let l ← fs.locate path
  match fs.at? l with
  | some e => .ok e
  | none => .error .missing

def isThere (fs : FileSystem) (path : RawText) : Bool := (fs.look path).isOk

def isFile (fs : FileSystem) (path : RawText) : Bool :=
  match fs.look path with
  | .ok (.file _) => true
  | _ => false

def isDirectory (fs : FileSystem) (path : RawText) : Bool :=
  match fs.look path with
  | .ok .directory => true
  | _ => false

/-- The text of a file. -/
def read (fs : FileSystem) (path : RawText) : Except IOFault String := do
  match ← fs.look path with
  | .directory => .error .isDirectory
  | .file (.text s) => .ok s
  | .file (.bytes _) => .error .notText

def pathOf (l : Location) : RawText := Path.ofComponents (.root :: l.map .name)

def canonical (fs : FileSystem) (path : RawText) : Except IOFault RawText := do
  let l ← fs.locate path
  match fs.at? l with
  | some _ => .ok (pathOf l)
  | none => .error .missing

/-! Changes -/

def placeOf (fs : FileSystem) (path : RawText) (pieces : List RawText) :
    Except IOFault (Location × RawText) := do
  match pieces.reverse with
  | [] => .error .missing
  | last :: before =>
    let l ← fs.walk (fs.origin path) before.reverse
    match fs.at? l with
    | none => .error .missing
    | some (.file _) => .error .notDirectory
    | some .directory => .ok (l, last)

def isDots (piece : RawText) : Bool := piece.isEmpty || piece = "." || piece = ".."

def endSlashes (path : RawText) : List RawText × Bool :=
  let pieces := Path.pieces path
  ((pieces.reverse.dropWhile RawText.isEmpty).reverse, pieces.getLast? == some ↑"")

/-- One new directory in a directory that is there. -/
def makeDirectory (fs : FileSystem) (path : RawText) : Except IOFault FileSystem := do
  if path.isEmpty then throw .missing
  let pieces := (endSlashes path).1
  if pieces.isEmpty then throw .occupied
  let (l, last) ← fs.placeOf path pieces
  if isDots last || (fs.at? (l ++ [last])).isSome then throw .occupied
  return fs.put (l ++ [last]) .directory

/-- A directory and those above it, nearest first. What was made stays when the next one
cannot be made. -/
def ensure (fs : FileSystem) (path : RawText) (above : List Path.Component) :
    FileSystem × Except IOFault Unit :=
  let settle (fs : FileSystem) (fault : IOFault) : FileSystem × Except IOFault Unit :=
    (fs, if fs.isDirectory path then .ok () else .error fault)
  match fs.makeDirectory path with
  | .ok fs => (fs, .ok ())
  | .error .missing =>
    match above with
    | [] => (fs, .error .missing)
    | c :: further =>
      match ensure fs (Path.ofComponents (c :: further).reverse) further with
      | (fs, .error fault) => (fs, .error fault)
      | (fs, .ok ()) =>
        match fs.makeDirectory path with
        | .ok fs => (fs, .ok ())
        | .error fault => settle fs fault
  | .error fault => settle fs fault

/-- All directories of a path that are not there yet. -/
def makeDirectories (fs : FileSystem) (path : RawText) : FileSystem × Except IOFault Unit :=
  if path.isEmpty then (fs, .ok ())
  else fs.ensure path ((Path.components path).reverse.drop 1)

/-- A new empty file. Nothing that is already there is touched. A slash at the end asks for a
directory. -/
def create (fs : FileSystem) (path : RawText) : Except IOFault FileSystem := do
  if path.isEmpty then throw .missing
  let (pieces, slashes) := endSlashes path
  if pieces.isEmpty then throw .occupied
  let (l, last) ← fs.placeOf path pieces
  if isDots last then throw .occupied
  if slashes then throw .isDirectory
  if (fs.at? (l ++ [last])).isSome then throw .occupied
  return fs.put (l ++ [last]) (.file (.text ""))

def fill (fs : FileSystem) (path : RawText) (text : String) : FileSystem × Except IOFault Unit :=
  match fs.locate path with
  | .error fault => (fs, .error fault)
  | .ok l =>
    match fs.room with
    | none => (fs.put l (.file (.text text)), .ok ())
    | some bytes =>
      if text.utf8ByteSize ≤ bytes then (fs.put l (.file (.text text)), .ok ())
      else (fs.put l (.file (.bytes (text.toUTF8.toList.take bytes))), .error .full)

def unlink (fs : FileSystem) (path : RawText) : FileSystem :=
  match fs.locate path with
  | .error _ => fs
  | .ok l => fs.remove l

/-- A file with that content, in the place of what it held before. A slash at the end asks for
a directory. -/
def write (fs : FileSystem) (path : RawText) (content : Content) : Except IOFault FileSystem := do
  let (pieces, slashes) := endSlashes path
  let (l, last) ← fs.placeOf path pieces
  if isDots last || slashes then throw .isDirectory
  match fs.at? (l ++ [last]) with
  | some .directory => .error .isDirectory
  | _ => .ok (fs.put (l ++ [last]) (.file content))

/-- A file emptied, or made if there is none, and then filled with a text. -/
def save (fs : FileSystem) (path : RawText) (text : String) : FileSystem × Except IOFault Unit :=
  match fs.write path (.text "") with
  | .error fault => (fs, .error fault)
  | .ok emptied => emptied.fill path text

/-! Walks -/

/-- The paths of the files below a directory, to a number of levels. Names that are not
wanted are passed over with all that is below them. -/
def filesTo (fs : FileSystem) (isWanted : RawText → Bool) :
    Nat → Location → RawText → List RawText
  | 0, _, _ => []
  | levels + 1, l, path =>
    ((fs.names l).filter isWanted).flatMap (fun name =>
      match fs.at? (l ++ [name]) with
      | some (.file _) => [Path.joinRaw path name]
      | some .directory => filesTo fs isWanted levels (l ++ [name]) (Path.joinRaw path name)
      | none => [])

def depth (fs : FileSystem) : Nat := (fs.entries.map (·.1.length)).foldl max 0

def filesBelow (fs : FileSystem) (isWanted : RawText → Bool) (path : RawText) : List RawText :=
  match fs.locate path with
  | .ok l => fs.filesTo isWanted fs.depth l path
  | .error _ => []

end FileSystem

end CodeOutline
