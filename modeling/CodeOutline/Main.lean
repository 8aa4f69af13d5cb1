import CodeOutline.Command.Arguments
import CodeOutline.Command.Run

/-!
The program. It reads the files that a command may look at, runs the command, and writes the
files that the command has made.
-/

set_option autoImplicit false

namespace CodeOutline.Program

open Command

def usageText : Usage → String
  | .displayVersion => "outliner " ++ Report.version
  | .displayHelp | .displayHelpOnMissing => Report.textOf [
      "Structural outlines of source files, and interface/implementation",
      "scaffolding from the types they declare.", "", "Usage: outliner [OPTIONS] <COMMAND>", "",
      "Commands:", "  outline   Print the outline of a file or of a directory",
      "  generate  Generate an interface or implementation from an entity of a file",
      "  init      Create a configuration file from a template"]
  | fault => "error: " ++ fault.word

def pathsOf : Request → List String
  | .outline r => r.path :: r.config.toList
  | .generate r => r.file :: (r.config.toList ++ r.workspace.toList)
  | .init r => [r.output]

abbrev Entries := List (Location × Entry)

def contentOf (entry : IO.FS.DirEntry) : IO Content := do
  try
    let bytes ← IO.FS.readBinFile entry.path
    match String.fromUTF8? bytes with
    | some s => return .text s
    | none => return .bytes bytes.toList
  catch _ => return .bytes [255]

partial def entriesBelow (l : Location) (entries : Array IO.FS.DirEntry) : IO Entries := do
  let mut found : Entries := []
  for entry in entries do
    let here := l ++ [RawText.ofText entry.fileName]
    match (← entry.path.symlinkMetadata).type with
    | .dir =>
      let below ← (try entry.path.readDir catch _ => pure #[])
      found := found ++ [(here, .directory)] ++ (← entriesBelow here below)
    | .file => found := found ++ [(here, .file (← contentOf entry))]
    | _ => pure ()
  return found

/-- The entries on the way to a path, each looked up in the directory before it, and all that
is below it. -/
partial def entriesAlong (l : Location) (entries : Array IO.FS.DirEntry) :
    Location → IO Entries
  | [] => entriesBelow l entries
  | name :: rest => do
    let here := l ++ [name]
    match entries.find? (RawText.ofText ·.fileName == name) with
    | none => return []
    | some entry =>
      match (← entry.path.symlinkMetadata).type with
      | .dir =>
        let below ← (try entry.path.readDir catch _ => pure #[])
        return (here, .directory) :: (← entriesAlong here below rest)
      | .file => return [(here, .file (← contentOf entry))]
      | _ => return []

def filesFor (current : Location) (paths : List String) : IO FileSystem := do
  let root ← (← IO.FS.realPath "/").readDir
  let mut fs : FileSystem := { current }
  for l in current :: paths.map (fun path => Path.resolve current (.ofText path)) do
    for (l, e) in ← entriesAlong [] root l do
      if (fs.at? l).isNone then fs := { fs with entries := (l, e) :: fs.entries }
  return fs

def writeNew (before after : FileSystem) : IO Unit := do
  for (l, e) in after.entries do
    if before.at? l != some e then
      match e with
      | .directory => IO.FS.createDirAll (FileSystem.pathOf l).lossy
      | .file (.text s) => IO.FS.writeFile (FileSystem.pathOf l).lossy s
      | .file (.bytes _) => pure ()

def userDirectory : IO (Option String) := do
  match ← IO.getEnv "XDG_CONFIG_HOME" with
  | some path => if Path.isAbsolute path then return some path
  | none => pure ()
  return (← IO.getEnv "HOME").map (Path.join · ".config")

def execute (request : Request) : IO UInt32 := do
  let current := Path.resolve [] (← IO.currentDir).toString
  let user ← userDirectory
  let settings := user.toList.map (fun path => Path.join (Path.join path "outliner") "config.yaml")
  let files ← filesFor current (pathsOf request ++ settings)
  let output ← IO.getStdout
  let hasColors := (← output.isTty) && (← IO.getEnv "NO_COLOR").isNone
  let outcome := Command.run { files, userDirectory := user, hasColors } request
  writeNew files outcome.files
  output.putStr outcome.output
  (← IO.getStderr).putStr outcome.faults
  return outcome.code.number.toUInt32

end CodeOutline.Program

def main (arguments : List String) : IO UInt32 := do
  match CodeOutline.Command.Request.ofArguments arguments with
  | .ok request => CodeOutline.Program.execute request
  | .error usage =>
    let text := CodeOutline.Program.usageText usage
    if usage.exitCode = 0 then IO.println text else IO.eprintln text
    return usage.exitCode.toUInt32
