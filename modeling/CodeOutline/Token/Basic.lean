import CodeOutline.Token.OrderedMap

/-!
The token model that every analysis produces and every view reads. It knows no language:
a tree of named declarations with the places where their names stand.
-/

set_option autoImplicit false

namespace CodeOutline

/-- A line and a column, both counted from zero. -/
structure Point where
  line : Nat
  column : Nat
deriving DecidableEq, Repr, Inhabited

/-- A half-open range of source text. -/
structure Span where
  start : Point
  stop : Point
deriving DecidableEq, Repr, Inhabited

namespace Span

/-- So many columns of one line. -/
def onLine (line column length : Nat) : Span := ⟨⟨line, column⟩, ⟨line, column + length⟩⟩

def display (s : Span) : String := s!"{s.start.line + 1}:{s.start.column + 1}"

/-- Both ends changed by one function. -/
def map (f : Point → Point) (s : Span) : Span := ⟨f s.start, f s.stop⟩

end Span

/-- Who may use a member. The order of the constructors is the order of their names. -/
inductive Visibility
  | priv | prot | pub
deriving DecidableEq, Repr, Inhabited

namespace Visibility

def rank : Visibility → Nat
  | .priv => 0
  | .prot => 1
  | .pub => 2

def word : Visibility → String
  | .priv => "private"
  | .prot => "protected"
  | .pub => "public"

def ofWord? : String → Option Visibility
  | "private" => some .priv
  | "protected" => some .prot
  | "public" => some .pub
  | _ => none

end Visibility

/-- A variable, a callable's argument, a constant or a style declaration. -/
structure VarToken where
  name : String
  span : Option Span := none
  type : Option String := none
  value : Option String := none
  visibility : Visibility := .pub
  isStatic : Bool := false
deriving DecidableEq, Repr, Inhabited

/-- A field of an entity. -/
structure PropertyToken extends VarToken where
  isReadonly : Bool := false
deriving DecidableEq, Repr, Inhabited

/-- What an accessor does with its property. -/
inductive Direction
  | get | set
deriving DecidableEq, Repr, Inhabited

def Direction.word : Direction → String
  | .get => "get"
  | .set => "set"

/-- A getter or a setter. -/
structure AccessorToken extends PropertyToken where
  isAbstract : Bool := false
  direction : Direction := .get
deriving DecidableEq, Repr, Inhabited

/-- A method, or a free function where it stands outside entities; the type is the
return type, and read-only means that it cannot be overridden. -/
structure MethodToken extends VarToken where
  arguments : List VarToken := []
  isAbstract : Bool := false
  isReadonly : Bool := false
deriving DecidableEq, Repr, Inhabited

def MethodToken.isMagic (m : MethodToken) : Bool :=
  match m.name.toList with
  | '_' :: '_' :: _ => true
  | _ => false

structure ImportToken where
  name : String
  span : Option Span := none
  localName : Option String := none
deriving DecidableEq, Repr, Inhabited

/-- The three collections of entities. -/
inductive EntityKind
  | interface | trait | «class»
deriving DecidableEq, Repr, Inhabited

namespace EntityKind

def word : EntityKind → String
  | .interface => "interface"
  | .trait => "trait"
  | .class => "class"

/-- The kinds in the order in which entities are listed. -/
def all : List EntityKind := [.interface, .trait, .class]

end EntityKind

/-- An interface, trait or class with its members; read-only means final or sealed, and
`traits` are the entities composed into this one. -/
structure EntityToken where
  name : String
  span : Option Span := none
  visibility : Visibility := .pub
  constants : List VarToken := []
  properties : List PropertyToken := []
  accessors : List AccessorToken := []
  methods : List MethodToken := []
  traits : List EntityToken := []
  isAbstract : Bool := false
  isReadonly : Bool := false
deriving Repr, Inhabited, BEq

/-- The shape of a value in a data file. -/
inductive DataKind
  | object | array | value
deriving DecidableEq, Repr, Inhabited

namespace DataKind

def word : DataKind → String
  | .object => "object"
  | .array => "array"
  | .value => "value"

def isContainer : DataKind → Bool
  | .value => false
  | _ => true

end DataKind

/-- One value of a data file: its name is the key inside an object and the index inside
an array, and a scalar keeps its source text as value. -/
structure DataToken where
  name : String
  span : Option Span := none
  kind : DataKind := .value
  value : Option String := none
  children : List DataToken := []
deriving Repr, Inhabited, BEq

def DataToken.descendant? (t : DataToken) : List Nat → Option DataToken
  | [] => some t
  | i :: path =>
    match t.children[i]? with
    | some child => child.descendant? path
    | none => none

abbrev SelectorMap := OrderedMap (List VarToken)

/-- The outline model of one document. -/
structure TokenTree where
  strict : Option Bool := none
  space : Option String := none
  imports : List ImportToken := []
  interfaces : List EntityToken := []
  traits : List EntityToken := []
  classes : List EntityToken := []
  functions : List MethodToken := []
  vars : List VarToken := []
  rules : List VarToken := []
  items : List VarToken := []
  nodes : SelectorMap := .empty
  media : OrderedMap SelectorMap := .empty
  data : Option DataToken := none
deriving Repr, Inhabited, BEq

namespace TokenTree

/-- The tree that says nothing about its document. -/
def empty : TokenTree := {}

def isEmpty (t : TokenTree) : Bool :=
  t.strict.isNone && t.space.isNone && t.imports.isEmpty && t.interfaces.isEmpty &&
    t.traits.isEmpty && t.classes.isEmpty && t.functions.isEmpty && t.vars.isEmpty &&
    t.rules.isEmpty && t.items.isEmpty && t.nodes.isEmpty && t.media.isEmpty && t.data.isNone

def entitiesOf (t : TokenTree) : EntityKind → List EntityToken
  | .interface => t.interfaces
  | .trait => t.traits
  | .class => t.classes

def entities (t : TokenTree) : List (EntityKind × EntityToken) :=
  EntityKind.all.flatMap (fun k => (t.entitiesOf k).map (fun e => (k, e)))

def findEntity? (t : TokenTree) (name : String) : Option (EntityKind × EntityToken) :=
  t.entities.find? (fun (_, e) => e.name == name)

def entityCount (t : TokenTree) : Nat :=
  t.interfaces.length + t.traits.length + t.classes.length

end TokenTree

namespace EntityToken

def hasMembers (e : EntityToken) : Bool :=
  !(e.constants.isEmpty && e.properties.isEmpty && e.accessors.isEmpty &&
    e.methods.isEmpty && e.traits.isEmpty)

def insertNew {α κ : Type} [BEq κ] (key : α → κ) (items : List α) (item : α) : List α :=
  if items.any (fun old => key old == key item) then items else items ++ [item]

def addConstant (e : EntityToken) (c : VarToken) : EntityToken :=
  { e with constants := insertNew (·.name) e.constants c }

def addProperty (e : EntityToken) (p : PropertyToken) : EntityToken :=
  { e with properties := insertNew (·.name) e.properties p }

def addAccessor (e : EntityToken) (a : AccessorToken) : EntityToken :=
  { e with accessors := insertNew (fun a => (a.name, a.direction)) e.accessors a }

def addMethod (e : EntityToken) (m : MethodToken) : EntityToken :=
  { e with methods := insertNew (·.name) e.methods m }

def addTrait (e : EntityToken) (t : EntityToken) : EntityToken :=
  { e with traits := insertNew (·.name) e.traits t }

end EntityToken

end CodeOutline
