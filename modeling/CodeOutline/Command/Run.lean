import CodeOutline.Command.Request
import CodeOutline.Command.Template
import CodeOutline.Config.Read
import CodeOutline.Report.Files
import CodeOutline.Session
import CodeOutline.Text.Letter

/-!
What the commands do. A command reads and changes a file system, writes lines for the user
and lines about faults, and ends with a code.
-/

set_option autoImplicit false

namespace CodeOutline.Command

/-! Paths are given as text, and shown as text. -/

instance : Coe (List String) (List RawText) := ⟨List.map RawText.ofText⟩

instance : Coe (List RawText) (List String) := ⟨List.map RawText.lossy⟩

/-- Where a command runs. -/
structure Setting where
  files : FileSystem
  /-- The directory for the user's own settings. -/
  userDirectory : Option String := none
  hasColors : Bool := false

/-- The path of the directory where the command runs. -/
def Setting.directory (s : Setting) : String := (FileSystem.pathOf s.files.current).lossy

inductive Code
  | success | failed | error
deriving DecidableEq, Repr

def Code.number : Code → Nat
  | .success => 0
  | .failed => 1
  | .error => 2

/-- What a command leaves behind. -/
structure Outcome where
  code : Code
  output : String := ""
  faults : String := ""
  files : FileSystem

def refuse (s : Setting) (lines : List String) : Outcome :=
  { code := .error, faults := Report.textOf lines, files := s.files }

def loadConfig (s : Setting) (named : Option String) : Except Outcome Config :=
  match Config.load s.files named s.directory s.userDirectory with
  | .ok c => .ok c
  | .error e => .error (refuse s ["Error: invalid config: " ++ e.message])

/-- Outlines a file, or all files in a directory. -/
def outline (s : Setting) (r : OutlineRequest) : Except Outcome Outcome := do
  if r.format != "pretty" && r.format != "json" then
    throw (refuse s ["Error: invalid format " ++ Text.visible r.format ++
      ", must be 'pretty' or 'json'"])
  let config ← loadConfig s r.config
  let path ← (s.files.canonical r.path).mapError (fun fault =>
    refuse s ["Error: cannot access path " ++ Text.visible r.path ++ ": " ++ fault.message])
  let directory := if s.files.isDirectory path then path else (Path.parent? path).getD path
  let batch : Batch := { directory, config }
  let paths := batch.collect s.files path
  if paths.isEmpty then
    return { code := .success, files := s.files
             faults := "Warning: no supported files to outline\n" }
  let (found, _) := batch.outlineAll s.files paths
  let output :=
    if r.format = "json" then Report.json r.path found
    else Report.pretty s.hasColors config.markers r.path found
  return { code := if found.all FileOutline.isOk then .success else .failed, output
           files := s.files }

def prompterOf (r : GenerateRequest) : Prompter where
  answer _ prompt :=
    match prompt with
    | .input text offered =>
      if Text.startsWith text "Directory" then some r.directory
      else r.name.orElse (fun _ => offered)
    | .pick _ options =>
      match r.extension with
      | some extension => options.find? (· == extension)
      | none => options.head?
  isInteractive := false

/-- Writes a new file from an entity of a file. -/
def generate (s : Setting) (r : GenerateRequest) : Except Outcome Outcome := do
  let config ← loadConfig s r.config
  let language ← match r.language.orElse (fun _ => detectLanguage r.file config) with
    | some language => pure language
    | none => throw (refuse s ["Error: cannot tell the language of " ++ r.file,
        "Use --language to set it"])
  let text ← (s.files.read r.file).mapError (fun fault =>
    refuse s ["Error: cannot read " ++ r.file ++ ": " ++ fault.message])
  let session := Session.start config (some (r.workspace.getD s.directory))
  let (_, session) := session.focus { language, file := r.file, text }
  let made := session.generate s.files r.mode r.entity (prompterOf r)
  let ending (code : Code) (lines : List String) : Outcome :=
    { code, faults := Report.textOf lines, files := made.files }
  match made.result with
  | .ok (some path) =>
    return { code := .success, output := Report.textOf ["Created " ++ path], files := made.files }
  | .ok none => return ending .failed ["Entity generation cancelled"]
  | .error failure =>
    let told := "Error: " ++ failure.message
    match failure with
    | .destinationConflict _ => return ending .failed [told, "Choose another --name or --dir"]
    | .ambiguousSelection _ => return ending .failed [told, "Pass the entity with --entity"]
    | _ => return ending .error [told]

private def padRight (width : Nat) (s : String) : String :=
  s ++ String.ofList (List.replicate (width - s.length) ' ')

private def templateLine (t : Template) : String :=
  let name := if t.name = "default" then t.name ++ " (default)" else t.name
  "  " ++ padRight 20 name ++ " " ++ t.description

private def listTemplates : String :=
  Report.textOf (["Available templates:", ""] ++ Template.all.map templateLine ++
    ["", "Usage:", "  outliner init --template <name>"])

/-- Writes a settings file from a template. -/
def init (s : Setting) (r : InitRequest) : Except Outcome Outcome := do
  if r.isList then
    return { code := .success, output := listTemplates, files := s.files }
  let template ← match Template.find? r.template with
    | some t => pure t
    | none => throw (refuse s ["Error: unknown template " ++ Text.visible r.template,
        "Run 'outliner init --list' to see available templates"])
  if s.files.isThere r.output then
    throw (refuse s ["Error: file already exists: " ++ r.output,
      "Remove it or use --output to specify a different path"])
  let (files, made) := s.files.makeDirectories ((Path.parent? r.output).getD "")
  let s := { s with files }
  made.mapError (fun fault =>
    refuse s ["Error: failed to create directory: " ++ fault.message])
  let (files, saved) := s.files.save r.output template.content
  saved.mapError (fun fault =>
    refuse { s with files } ["Error: failed to write config: " ++ fault.message])
  return { code := .success, files
           output := Report.textOf [
             "Created " ++ r.output ++ " from template '" ++ template.name ++ "'", "",
             "Next steps:", "  1. Edit " ++ r.output ++ " to customize for your project",
             "  2. Run: outliner outline . --config " ++ r.output] }

/-- Does what is asked for. -/
def run (s : Setting) (r : Request) : Outcome :=
  let outcome := match r with
    | .outline r => outline s r
    | .generate r => generate s r
    | .init r => init s r
  match outcome with
  | .ok o => o
  | .error o => o

end CodeOutline.Command
