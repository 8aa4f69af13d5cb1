import CodeOutline.Command.Request
import CodeOutline.Text.Search

/-!
The reading of command lines. A value is checked only when the next argument is taken up, so
an argument that nobody knows is refused before the value in front of it.
-/

set_option autoImplicit false

namespace CodeOutline.Command

/-- What a parameter takes. -/
inductive Kind
  | flag | help | version | text | path | mode
deriving DecidableEq, Repr

def Kind.takesValue : Kind → Bool
  | .text | .path | .mode => true
  | _ => false

def modeWords : List (String × Scaffold.Mode) :=
  [("interface", .interface), ("implementation", .implementation)]

def Kind.admits (k : Kind) (value : String) : Bool :=
  match k with
  | .path => !value.isEmpty
  | .mode => (modeWords.lookup value).isSome
  | _ => true

structure Parameter where
  name : String
  short : Option Char := none
  kind : Kind
deriving DecidableEq, Repr

/-- What a command takes: its options, and what stands without one. -/
structure Form where
  options : List Parameter
  place : Option Parameter := none
deriving Repr

/-- What has been read of a command line. -/
structure Reading where
  given : List (String × String) := []
  /-- The parameter that was taken up last, not yet checked, and its value so far. -/
  pending : Option (Parameter × Option String) := none
  /-- The place without an option is taken. -/
  isPlaced : Bool := false
  /-- No more options can follow. -/
  isTrailing : Bool := false
deriving Repr

namespace Reading

def accept (r : Reading) (p : Parameter) (value : String) : Except Usage Reading :=
  if r.given.any (·.1 == p.name) then .error .argumentConflict
  else if !p.kind.admits value then .error .invalidValue
  else .ok { r with given := r.given ++ [(p.name, value)] }

def settle (r : Reading) : Except Usage Reading :=
  match r.pending with
  | none => .ok r
  | some (_, none) => .error .invalidValue
  | some (p, some value) => { r with pending := none }.accept p value

def raise (r : Reading) (p : Parameter) : Except Usage Reading := do
  let r ← r.settle
  match p.kind with
  | .help => .error .displayHelp
  | .version => .error .displayVersion
  | _ => r.accept p ""

def takeUp (r : Reading) (p : Parameter) (value : Option String) : Except Usage Reading := do
  let r ← r.settle
  match value with
  | none => return { r with pending := some (p, none) }
  | some value => r.accept p value

def value? (r : Reading) (name : String) : Option String := r.given.lookup name

end Reading

/-- How an argument is written. -/
inductive Shape
  | escape
  | long (name : String) (value : Option String)
  | short (letters : List Char)
  | plain

def shapeOf (argument : String) : Shape :=
  match argument.toList with
  | ['-', '-'] => .escape
  | '-' :: '-' :: cs =>
    match Text.cutFirst? ['='] cs with
    | some (name, value) => .long (String.ofList name) (some (String.ofList value))
    | none => .long (String.ofList cs) none
  | '-' :: c :: cs => .short (c :: cs)
  | _ => .plain

namespace Form

private def readLong (f : Form) (r : Reading) (name : String) (value : Option String) :
    Except Usage Reading :=
  match f.options.find? (·.name == name) with
  | none => .error .unknownArgument
  | some p =>
    if p.kind.takesValue then r.takeUp p value
    else if value.isSome then .error .tooManyValues
    else r.raise p

private def readShort (f : Form) (r : Reading) : List Char → Except Usage Reading
  | [] => .ok r
  | c :: rest =>
    match f.options.find? (·.short == some c) with
    | none => .error .unknownArgument
    | some p =>
      if p.kind.takesValue then
        r.takeUp p (match rest with
          | [] => none
          | '=' :: value => some (String.ofList value)
          | value => some (String.ofList value))
      else do
        let r ← r.raise p
        readShort f r rest

private def readPlain (f : Form) (r : Reading) (argument : String) : Except Usage Reading :=
  match r.isTrailing, r.pending, f.place with
  | false, some (p, none), _ => .ok { r with pending := some (p, some argument) }
  | _, _, some place =>
    if r.isPlaced then .error .unknownArgument
    else do
      let r ← r.settle
      return { r with pending := some (place, some argument), isPlaced := true }
  | _, _, none => .error .unknownArgument

def readOne (f : Form) (r : Reading) (argument : String) : Except Usage Reading :=
  if r.isTrailing then f.readPlain r argument
  else match shapeOf argument with
    | .escape => .ok { r with isTrailing := true }
    | .long name value => f.readLong r name value
    | .short letters => f.readShort r letters
    | .plain => f.readPlain r argument

/-- The reading of all arguments. What stands without an option may not be missing. -/
def read (f : Form) (arguments : List String) : Except Usage Reading := do
  let r ← arguments.foldlM f.readOne {}
  let r ← r.settle
  match f.place with
  | some place => if (r.value? place.name).isSome then return r else throw .missingRequiredArgument
  | none => return r

end Form

/-! The commands -/

private def verbose : Parameter := { name := "verbose", short := some 'v', kind := .flag }

private def help : Parameter := { name := "help", short := some 'h', kind := .help }

private def config : Parameter := { name := "config", short := some 'c', kind := .path }

private def general : Form where
  options := [verbose, help, { name := "version", short := some 'V', kind := .version }]

private def outlineForm : Form where
  options := [config, { name := "format", short := some 'f', kind := .text }, verbose, help]
  place := some { name := "path", kind := .path }

private def generateForm : Form where
  options := [{ name := "mode", short := some 'm', kind := .mode },
    { name := "entity", short := some 'e', kind := .text },
    { name := "name", short := some 'n', kind := .text },
    { name := "dir", short := some 'd', kind := .text }, { name := "ext", kind := .text },
    { name := "workspace", short := some 'w', kind := .path },
    { name := "language", short := some 'l', kind := .text }, config, verbose, help]
  place := some { name := "file", kind := .path }

private def initForm : Form where
  options := [{ name := "output", short := some 'o', kind := .path },
    { name := "template", short := some 't', kind := .text },
    { name := "list", short := some 'l', kind := .flag }, verbose, help]

private def readOutline (arguments : List String) : Except Usage Request := do
  let r ← outlineForm.read arguments
  return .outline { path := (r.value? "path").getD "", config := r.value? "config"
                    format := (r.value? "format").getD "pretty" }

private def readGenerate (arguments : List String) : Except Usage Request := do
  let r ← generateForm.read arguments
  return .generate {
    file := (r.value? "file").getD ""
    mode := ((r.value? "mode").bind (modeWords.lookup ·)).getD .interface
    entity := r.value? "entity"
    name := r.value? "name"
    directory := (r.value? "dir").getD ""
    extension := r.value? "ext"
    workspace := r.value? "workspace"
    language := r.value? "language"
    config := r.value? "config" }

private def readInit (arguments : List String) : Except Usage Request := do
  let r ← initForm.read arguments
  return .init { output := (r.value? "output").getD "outliner.yaml"
                 template := (r.value? "template").getD "default"
                 isList := (r.value? "list").isSome }

private def reader? (command : String) : Option (List String → Except Usage Request) :=
  match command with
  | "outline" | "show" => some readOutline
  | "generate" => some readGenerate
  | "init" => some readInit
  | _ => none

private def isCommand (argument : String) : Bool :=
  argument == "help" || (reader? argument).isSome

private def readHelp (arguments : List String) : Usage :=
  match arguments with
  | [] => .displayHelp
  | [command] => if isCommand command then .displayHelp else .invalidSubcommand
  | _ => .invalidSubcommand

private def readFrom (r : Reading) : List String → Except Usage Request
  | [] => .error (if r.given.isEmpty then .displayHelpOnMissing else .missingSubcommand)
  | argument :: rest =>
    match r.isTrailing, reader? argument, shapeOf argument with
    | true, _, _ => .error (if isCommand argument then .unknownArgument else .invalidSubcommand)
    | false, some reader, _ => reader rest
    | false, none, .plain =>
      .error (if argument = "help" then readHelp rest else .invalidSubcommand)
    | false, none, _ => do
      let r ← general.readOne r argument
      readFrom r rest

/-- What the arguments ask for. -/
def Request.ofArguments (arguments : List String) : Except Usage Request := readFrom {} arguments

end CodeOutline.Command
