import CodeOutline.Text.Search
import CodeOutline.Token.Basic

/-!
The texts shown for tokens. A mark before the name tells read-only and abstract members
from the others.
-/

set_option autoImplicit false

namespace CodeOutline

/-- The marks of read-only and of abstract members. -/
structure Markers where
  isReadonly : String
  isAbstract : String
deriving DecidableEq, Repr, Inhabited

namespace Markers

/-- A member that is both shows only the read-only mark. -/
def mark (m : Markers) (isReadonly isAbstract : Bool) : String :=
  if isReadonly then m.isReadonly else if isAbstract then m.isAbstract else ""

def strip (m : Markers) (label : String) : String :=
  match Text.afterStart? m.isReadonly label with
  | some rest => rest
  | none => (Text.afterStart? m.isAbstract label).getD label

end Markers

namespace Label

def shown? (s : Option String) : Option String := s.filter (fun s => !s.isEmpty)

private def part (lead : String) (s : Option String) : String :=
  match shown? s with
  | some s => lead ++ s
  | none => ""

def importLabel (i : ImportToken) : String := i.name ++ part " as " i.localName

def typed (v : VarToken) : String := v.name ++ part ": " v.type ++ part " = " v.value

def property (m : Markers) (p : PropertyToken) : String :=
  m.mark p.isReadonly false ++ typed p.toVarToken

def accessor (a : AccessorToken) : String := typed a.toVarToken

def argument (v : VarToken) : String :=
  (match shown? v.type with
  | some type => type ++ " " ++ v.name
  | none => v.name) ++ part " = " v.value

def method (m : Markers) (t : MethodToken) : String :=
  m.mark t.isReadonly t.isAbstract ++ t.name ++ "(" ++
    ", ".intercalate (t.arguments.map argument) ++ ")" ++ part ": " t.type

/-- Only classes show marks. -/
def entity (m : Markers) (kind : EntityKind) (e : EntityToken) : String :=
  match kind with
  | .class => m.mark e.isReadonly e.isAbstract ++ e.name
  | _ => e.name

def declaration (v : VarToken) : String :=
  v.name ++ (if Text.startsWith v.name "@" then " = " else ": ") ++ v.value.getD ""

private def withoutQuotes (s : String) : String :=
  ((Text.afterStart? "\"" s).bind (Text.beforeEnd? "\"")).getD s

/-- A container shows its key or index, an object member its key and value, and any other
scalar its value without quotes. -/
def data (parent : DataKind) (t : DataToken) : String :=
  let value := t.value.getD ""
  if t.kind.isContainer then t.name
  else match parent with
    | .object => t.name ++ ": " ++ value
    | _ => withoutQuotes value

end Label

end CodeOutline
