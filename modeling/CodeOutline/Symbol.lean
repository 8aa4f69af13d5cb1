import CodeOutline.Token.Basic

/-!
Flat symbols of a document: each with its kind, the type that holds it, and where it stands.
-/

set_option autoImplicit false

namespace CodeOutline

inductive SymbolKind
  | space | module | package | «class» | struct | interface | property | field | method
  | constructor | var | function
deriving DecidableEq, Repr, Inhabited

namespace SymbolKind

def all : List SymbolKind :=
  [.space, .module, .package, .class, .struct, .interface, .property, .field, .method,
    .constructor, .var, .function]

def word : SymbolKind → String
  | .space => "namespace"
  | .module => "module"
  | .package => "package"
  | .class => "class"
  | .struct => "struct"
  | .interface => "interface"
  | .property => "property"
  | .field => "field"
  | .method => "method"
  | .constructor => "constructor"
  | .var => "variable"
  | .function => "function"

def ofWord? (w : String) : Option SymbolKind := all.find? (·.word == w)

end SymbolKind

/-- A declaration without its members. The span starts at the name and ends with the
declaration. -/
structure Symbol where
  name : String
  kind : SymbolKind
  container : Option String := none
  span : Span
deriving DecidableEq, Repr, Inhabited

end CodeOutline
