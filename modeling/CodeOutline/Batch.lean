import CodeOutline.FileSystem.Basic
import CodeOutline.Registry

/-!
The outlines of many files. Each file is read on its own; what was found once is kept under
the file's absolute path, failures too, until all is forgotten.
-/

set_option autoImplicit false

namespace CodeOutline

structure FileOutline where
  /-- The path as seen from the directory of the batch, as it is shown. -/
  path : String
  language : String
  tree : TokenTree := .empty
  /-- Why there is no outline. -/
  fault : Option String := none
deriving BEq, Repr, Inhabited

def FileOutline.isOk (f : FileOutline) : Bool := f.fault.isNone

structure Batch where
  /-- Where relative paths begin. -/
  directory : RawText
  config : Config
  /-- What was found, with absolute paths, the latest first. -/
  known : List (RawText × FileOutline) := []

namespace Batch

def absolute (b : Batch) (path : RawText) : RawText := Path.joinRaw b.directory path

/-- The analysis of the file as it is now. -/
def analyze (b : Batch) (fs : FileSystem) (path : RawText) : FileOutline :=
  let shown := (Path.relativeTo b.directory path).lossy
  match detectLanguage path b.config with
  | none => { path := shown, language := "unknown", fault := some "unrecognized file type" }
  | some language =>
    match fs.read path with
    | .error fault => { path := shown, language, fault := some fault.message }
    | .ok text =>
      match (Registry.ofConfig b.config).analyze { language, file := path.lossy, text } b.config with
      | .ok tree => { path := shown, language, tree }
      | .error failure => { path := shown, language, fault := some failure.message }

def known? (b : Batch) (path : RawText) : Option FileOutline :=
  (b.known.find? (fun (other, _) => Path.same other path)).map (·.2)

/-- The outline of a file, the known one if there is any. -/
def outline (b : Batch) (fs : FileSystem) (path : RawText) : FileOutline × Batch :=
  let path := b.absolute path
  match b.known? path with
  | some found => (found, b)
  | none =>
    let found := b.analyze fs path
    (found, { b with known := (path, found) :: b.known })

def outlineEach (fs : FileSystem) : Batch → List RawText → List FileOutline × Batch
  | b, [] => ([], b)
  | b, path :: rest =>
    let (found, b) := b.outline fs path
    let (others, b) := outlineEach fs b rest
    (found :: others, b)

/-- The outlines of files in the order of their paths as text. -/
def outlineAll (b : Batch) (fs : FileSystem) (paths : List RawText) : List FileOutline × Batch :=
  let (found, b) := outlineEach fs b paths
  (found.mergeSort (fun x y => decide (x.path ≤ y.path)), b)

def isShown (name : RawText) : Bool :=
  match name.text? with
  | some s => !Text.startsWith s "."
  | none => true

/-- The files below a directory whose language is known, but for hidden ones and what the
configuration excludes. A path that leads to a file is that file alone. -/
def collect (b : Batch) (fs : FileSystem) (root : RawText) : List RawText :=
  let root := b.absolute root
  if fs.isFile root then [root]
  else
    let isUsed (path : RawText) : Bool :=
      !b.config.excludes path && (detectLanguage path b.config).isSome
    ((fs.filesBelow isShown root).filter isUsed).mergeSort Path.le

def forget (b : Batch) : Batch := { b with known := [] }

end Batch

end CodeOutline
