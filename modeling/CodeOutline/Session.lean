import CodeOutline.Dialogue
import CodeOutline.FileSystem.Basic
import CodeOutline.Outline.Projection
import CodeOutline.Registry
import CodeOutline.Scaffold.Language

/-!
The outline of the document that the user looks at. The editor tells what happens to
documents; a pinned document keeps its outline until it is saved. New files are written from
the entities of the outline.
-/

set_option autoImplicit false

namespace CodeOutline

structure Session where
  config : Config
  registry : Registry
  workspace : Option String
  active : Option Document := none
  tree : TokenTree := .empty
  isPinned : Bool := false

/-- What happens in the editor. -/
inductive Event
  /-- The user turns to a document. -/
  | focus (d : Document)
  | save (d : Document) (hasErrors : Bool)
  /-- Other documents can be seen. -/
  | visible (ds : List Document)
  | pin (isPinned : Bool)

namespace Session

def start (c : Config) (workspace : Option String) : Session :=
  { config := c, registry := .ofConfig c, workspace }

/-- A document becomes the active one. Without unsaved changes it brings its tree with it;
the truth value tells so. -/
def activate (s : Session) (d : Document) : Bool × Session :=
  if d.dirty then (false, { s with active := some d })
  else
    let (tree, registry) := s.registry.tokenTree d s.config
    (true, { s with active := some d, tree, registry })

/-- The active document is pinned, or none is any more. -/
def pin (s : Session) (isPinned : Bool) : Session :=
  { s with isPinned := isPinned && s.active.isSome }

def focus (s : Session) (d : Document) : Bool × Session :=
  if s.isPinned then (false, s) else s.activate d

/-- A save counts unless errors or a pin on another document forbid it. -/
def save (s : Session) (d : Document) (hasErrors : Bool) : Bool × Session :=
  if hasErrors && !s.config.updateOnError then (false, s)
  else if s.isPinned && !s.active.any (·.sameFile d) then (false, s)
  else s.activate d

/-- The first of the documents that can be seen becomes active. -/
def visible (s : Session) (ds : List Document) : Bool × Session :=
  match ds with
  | d :: _ => if s.isPinned then (false, s) else s.activate d
  | [] => (false, s)

/-- The session after an event, and whether the tree was read anew. -/
def handle (s : Session) : Event → Bool × Session
  | .focus d => s.focus d
  | .save d hasErrors => s.save d hasErrors
  | .visible ds => s.visible ds
  | .pin isPinned => (false, s.pin isPinned)

/-- The session after all events. -/
def run (s : Session) (events : List Event) : Session :=
  events.foldl (fun s e => (s.handle e).2) s

def markers (s : Session) : Markers := s.config.markers

def roots (s : Session) : List Outline.Node := Outline.roots s.markers s.tree

/-! New files -/

def isSlash (c : Char) : Bool := c == '/' || c == '\\'

/-- The directory for a new file: the answer without blanks around it and without slashes
before it, inside the workspace. -/
def directoryOf (workspace reply : String) : String :=
  Path.join workspace (Text.dropLeft isSlash (Text.trim reply))

def planFor (s : Session) (l : Scaffold.Language) (d : Document) (workspace : String)
    (mode : Scaffold.Mode) (source : EntityKind × EntityToken) (target directory : String)
    (extension : Option String) : Plan :=
  let options : Scaffold.Options := {
    strict := s.tree.strict = some true
    space := none
    sourceSpace := s.tree.space
    extension
    spaceWord := (s.config.language d.language).spaceWord }
  let directory := directoryOf workspace directory
  .create directory (Path.join directory (l.documentName target mode extension))
    (Scaffold.render (l.generate target source.2 source.1 mode options))

def entityPrompt (names : List String) : Prompt := .pick "Select the source entity" names

def namePrompt (offered : String) : Prompt :=
  .input "Name of the entity to generate (namespaced: `Name : Namespace`)" (some offered)

def directoryPrompt : Prompt :=
  .input "Directory in which to save the generated file (relative to the workspace root)" none

def extensionPrompt (extensions : List String) : Prompt :=
  .pick "Choose file extension" extensions

def askExtension (extensions : List String) (next : Option String → Dialogue) : Dialogue :=
  if extensions.isEmpty then next none
  else .ask (extensionPrompt extensions) (fun reply => next (some reply))

def askDetails (s : Session) (l : Scaffold.Language) (d : Document) (workspace : String)
    (mode : Scaffold.Mode) (source : EntityKind × EntityToken) : Dialogue :=
  .ask (namePrompt (Name.simple source.2.name l.separator)) (fun reply =>
    let target := Text.trim reply
    if (Name.splitTarget target l.separator none).1.isEmpty then .finish (.fail .emptyName)
    else .ask directoryPrompt (fun directory =>
      askExtension (l.extensions mode) (fun extension =>
        .finish (s.planFor l d workspace mode source target directory extension))))

def named? (s : Session) (name : String) : Option (EntityKind × EntityToken) :=
  s.tree.entities.find? (fun (_, e) => e.name == name)

/-- The entity to start from: the one whose label is selected, the only one there is, or one
that the user picks. -/
def chooseEntity (s : Session) (d : Document) (selection : Option String) (isInteractive : Bool)
    (next : EntityKind × EntityToken → Dialogue) : Dialogue :=
  match s.tree.entities, selection with
  | [], _ => .finish (.fail (.noEntities d.file))
  | _, some label =>
    let name := s.markers.strip (Text.trim label)
    match s.named? name with
    | some source => next source
    | none => .finish (.fail (.unknownEntity name))
  | [source], none => next source
  | entities, none =>
    let names := entities.map (·.2.name)
    if isInteractive then
      .ask (entityPrompt names) (fun choice =>
        match s.named? choice with
        | some source => next source
        | none => .finish .cancel)
    else .finish (.fail (.ambiguousSelection names))

def dialogue (s : Session) (mode : Scaffold.Mode) (selection : Option String)
    (isInteractive : Bool) : Dialogue :=
  match s.workspace, s.active with
  | none, _ => .finish (.fail .noWorkspace)
  | _, none => .finish (.fail (.noEntities "no active document"))
  | some workspace, some d =>
    match Scaffold.Language.ofId? d.language with
    | none => .finish (.fail (.generationUnsupported (Text.lowerAscii d.language)))
    | some l =>
      s.chooseEntity d selection isInteractive (s.askDetails l d workspace mode)

end Session

def FileSystem.writeNew (fs : FileSystem) (path text : String) : FileSystem × Except Failure Unit :=
  match fs.create path with
  | .error .occupied => (fs, .error (.destinationConflict path))
  | .error fault => (fs, .error (.io fault.message))
  | .ok made =>
    match made.fill path text with
    | (filled, .ok ()) => (filled, .ok ())
    | (begun, .error fault) => (begun.unlink path, .error (.io fault.message))

def Plan.carryOut (fs : FileSystem) : Plan → Except Failure (Option String) × FileSystem
  | .fail failure => (.error failure, fs)
  | .cancel => (.ok none, fs)
  | .create directory path text =>
    match fs.makeDirectories directory with
    | (fs, .error fault) => (.error (.io fault.message), fs)
    | (fs, .ok ()) =>
      let (fs, written) := fs.writeNew path text
      (written.map (fun _ => some path), fs)

/-- What a request for a new file comes to. -/
structure Generation where
  result : Except Failure (Option String)
  files : FileSystem
  asked : List Prompt

/-- A new file from an entity of the outline. -/
def Session.generate (s : Session) (fs : FileSystem) (mode : Scaffold.Mode)
    (selection : Option String) (p : Prompter) : Generation :=
  let (plan, asked) := (s.dialogue mode selection p.isInteractive).run p []
  let (result, files) := plan.carryOut fs
  { result, files, asked }

end CodeOutline
