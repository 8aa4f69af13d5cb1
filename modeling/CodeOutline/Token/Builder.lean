import CodeOutline.Name.Qualified
import CodeOutline.Token.Basic

/-!
Building a token tree by additions in source order. A list of named tokens keeps the first
token of each name; style declarations are gathered under their selector; a namespace or
the data root given again replaces the earlier one.
-/

set_option autoImplicit false

namespace CodeOutline

open EntityToken (insertNew)

def SelectorMap.extend (m : SelectorMap) (selector : String) (declarations : List VarToken) :
    SelectorMap :=
  m.upsert selector (fun old => old.getD [] ++ declarations)

def updateFirst? {α : Type} (p : α → Bool) (f : α → α) : List α → Option (List α)
  | [] => none
  | a :: rest => if p a then some (f a :: rest) else (updateFirst? p f rest).map (a :: ·)

def updateLast {α : Type} (f : α → α) : List α → List α
  | [] => []
  | [a] => [f a]
  | a :: rest => a :: updateLast f rest

namespace TokenTree

def setStrict (t : TokenTree) (b : Bool) : TokenTree := { t with strict := some b }

def setSpace (t : TokenTree) (ns : String) : TokenTree :=
  if ns.isEmpty then t else { t with space := some ns }

def addImport (t : TokenTree) (i : ImportToken) : TokenTree :=
  { t with imports := insertNew (·.name) t.imports i }

private def lastSegment (cs : List Char) : List Char :=
  (cs.reverse.takeWhile (fun c => c != '\\' && c != '.')).reverse

def isImported (t : TokenTree) (name : String) : Bool :=
  t.imports.any (fun i =>
    i.localName == some name || i.name == name || lastSegment i.name.toList == name.toList)

def addEntity (t : TokenTree) (kind : EntityKind) (e : EntityToken) : TokenTree :=
  match kind with
  | .interface => { t with interfaces := insertNew (·.name) t.interfaces e }
  | .trait => { t with traits := insertNew (·.name) t.traits e }
  | .class => { t with classes := insertNew (·.name) t.classes e }

def updateLastClass (t : TokenTree) (f : EntityToken → EntityToken) : TokenTree :=
  { t with classes := updateLast f t.classes }

/-- The entity has that name, as a whole or without its namespace. -/
def answersTo (name separator : String) (e : EntityToken) : Bool :=
  e.name == name || Name.simple e.name separator == name

def findOpen? (t : TokenTree) (name separator : String) : Option EntityToken :=
  (t.classes ++ t.interfaces).find? (answersTo name separator)

def updateOpen (t : TokenTree) (name separator : String) (f : EntityToken → EntityToken) :
    TokenTree :=
  match updateFirst? (answersTo name separator) f t.classes with
  | some classes => { t with classes }
  | none =>
    match updateFirst? (answersTo name separator) f t.interfaces with
    | some interfaces => { t with interfaces }
    | none => t

def addFunction (t : TokenTree) (m : MethodToken) : TokenTree :=
  { t with functions := insertNew (·.name) t.functions m }

def addVariable (t : TokenTree) (v : VarToken) : TokenTree :=
  { t with vars := insertNew (·.name) t.vars v }

def addRule (t : TokenTree) (v : VarToken) : TokenTree :=
  { t with rules := insertNew (·.name) t.rules v }

def addItem (t : TokenTree) (v : VarToken) : TokenTree :=
  { t with items := insertNew (·.name) t.items v }

def addDeclarations (t : TokenTree) (selector : String) (declarations : List VarToken) :
    TokenTree :=
  { t with nodes := t.nodes.extend selector declarations }

def addMediaDeclarations (t : TokenTree) (condition selector : String)
    (declarations : List VarToken) : TokenTree :=
  { t with
    media := t.media.upsert condition (fun old =>
      (old.getD .empty).extend selector declarations) }

def setData (t : TokenTree) (root : DataToken) : TokenTree := { t with data := some root }

end TokenTree

namespace EntityToken

def addMembers (e other : EntityToken) : EntityToken :=
  let e := other.constants.foldl addConstant e
  let e := other.properties.foldl addProperty e
  let e := other.accessors.foldl addAccessor e
  let e := other.methods.foldl addMethod e
  other.traits.foldl addTrait e

end EntityToken

/-- One addition to a tree. -/
inductive BuildStep
  | strict (b : Bool)
  | space (name : String)
  | importOf (i : ImportToken)
  | entity (kind : EntityKind) (e : EntityToken)
  | lastClass (members : EntityToken)
  | openEntity (name separator : String) (members : EntityToken)
  | function (m : MethodToken)
  | var (v : VarToken)
  | rule (v : VarToken)
  | item (v : VarToken)
  | declarations (selector : String) (ds : List VarToken)
  | media (condition selector : String) (ds : List VarToken)
  | data (root : DataToken)

namespace TokenTree

def step (t : TokenTree) : BuildStep → TokenTree
  | .strict b => t.setStrict b
  | .space ns => t.setSpace ns
  | .importOf i => t.addImport i
  | .entity kind e => t.addEntity kind e
  | .lastClass members => t.updateLastClass (·.addMembers members)
  | .openEntity name separator members => t.updateOpen name separator (·.addMembers members)
  | .function m => t.addFunction m
  | .var v => t.addVariable v
  | .rule v => t.addRule v
  | .item v => t.addItem v
  | .declarations selector ds => t.addDeclarations selector ds
  | .media condition selector ds => t.addMediaDeclarations condition selector ds
  | .data root => t.setData root

/-- The tree that a sequence of additions builds. -/
def build (steps : List BuildStep) : TokenTree := steps.foldl step empty

end TokenTree

end CodeOutline
