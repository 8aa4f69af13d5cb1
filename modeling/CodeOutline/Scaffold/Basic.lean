import CodeOutline.Name.Qualified
import CodeOutline.Outline.Label
import CodeOutline.Token.Basic

/-!
What writing a new file from an entity has in common for all target languages: the mode,
the options, numbered lines, and the choice of members that the new file carries.
-/

set_option autoImplicit false

namespace CodeOutline.Scaffold

/-- An interface has no bodies and no static methods; an implementation is a class whose
bodies say that they are missing. -/
inductive Mode
  | interface | implementation
deriving DecidableEq, Repr

def Mode.hasBodies : Mode → Bool
  | .interface => false
  | .implementation => true

/-- One line of text placed in an empty document. -/
structure Edit where
  line : Nat
  text : String
deriving DecidableEq, Repr

/-- The file that the edits make: by line number, each line ended. -/
def render (edits : List Edit) : String :=
  String.join ((edits.mergeSort (fun a b => decide (a.line ≤ b.line))).map (·.text ++ "\n"))

/-- The edits that put the lines one below the other. -/
def number (lines : List String) : List Edit := lines.mapIdx Edit.mk

structure Options where
  /-- A line that turns strict mode on. -/
  strict : Bool := false
  /-- The namespace of the new entity when its name carries none. -/
  space : Option String := none
  /-- The namespace of the source entity when its name carries none. -/
  sourceSpace : Option String := none
  /-- The chosen file extension. -/
  extension : Option String := none
  /-- The word that opens a namespace block. -/
  spaceWord : String := ""
deriving DecidableEq, Repr, Inhabited

def pad : String := "    "

def spaced (groups : List (List String)) : List String := [""].intercalate groups

/-- Groups one below the other, with an empty line between the first two when neither is
empty. -/
def separate (above below : List String) : List String :=
  if above.isEmpty || below.isEmpty then above ++ below else above ++ [""] ++ below

def publicOnly (vs : List VarToken) : List VarToken := vs.filter (·.visibility = .pub)

/-- Public methods that the language does not call by itself; an interface has no static
ones. -/
def methods (source : EntityToken) (mode : Mode) : List MethodToken :=
  source.methods.filter (fun m =>
    m.visibility = .pub && !m.isMagic && (mode.hasBodies || !m.isStatic))

def implemented? (source : EntityToken) (kind : EntityKind) (mode : Mode) (separator : String) :
    Option String :=
  if mode.hasBodies && kind = .interface then some (Name.simple source.name separator) else none

/-- The full name to import for the source entity, when it lives in another namespace than
the new one. -/
def sourceImport? (source : EntityToken) (separator : String) (space : Option String)
    (options : Options) : Option String :=
  let (name, own) := Name.split source.name separator
  match own.orElse (fun _ => options.sourceSpace) with
  | some ns => if some ns = space then none else some (ns ++ separator ++ name)
  | none => none

def typeShown? (type : Option String) (silent : List String) : Option String :=
  type.filter (fun t => !t.isEmpty && !silent.contains t)

/-- What stands before the lines of bodies: each method's line opens a block that holds one
statement. -/
def blocks (indent statement : String) (signatures : List (List String)) : List String :=
  spaced (signatures.map (fun opening =>
    opening.map (indent ++ ·) ++ [indent ++ pad ++ statement, indent ++ "\x7d"]))

def stubs (indent : String) (signatures : List String) : List String :=
  signatures.map (fun s => indent ++ s ++ ";")

end CodeOutline.Scaffold
