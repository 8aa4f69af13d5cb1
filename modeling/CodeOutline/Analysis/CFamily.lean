import CodeOutline.Config
import CodeOutline.Symbol
import CodeOutline.Text.Modifiers
import CodeOutline.Token.Builder

/-!
The outline that flat symbols give. A symbol tells only a name, a kind and a place; types,
values, arguments and modifiers are recovered from the line on which its name stands.
-/

set_option autoImplicit false

namespace CodeOutline.Analysis.CFamily

/-- What stands between a namespace and a name. -/
def separator : String := "."

def lineWords : Nat := 20

/-- The line on which a declaration starts, trimmed and without its last character. -/
def definitionLine (lines : List String) (line : Nat) : String :=
  String.ofList (Text.trimChars ((lines[line]?.getD "").toList)).dropLast

def wordsOf (definition : String) : List String :=
  Text.leadingWords definition lineWords

def isModifier (word : String) : Bool :=
  ["public", "protected", "private", "internal", "static", "abstract", "final", "sealed",
    "readonly", "virtual", "override", "extern"].contains word

def typeBefore? (p : String → Bool) (words : List String) : Option String :=
  if words.any p then
    (words.takeWhile (fun w => !p w)).getLast?.bind (fun w => if isModifier w then none else some w)
  else none

def nonempty? (s : String) : Option String := if s.isEmpty then none else some s

/-- A field, property or variable. A word equal to its name is preferred to one that only
begins with it. -/
def variableOf (definition : String) (s : Symbol) : VarToken :=
  let words := wordsOf definition
  let m := Modifiers.ofWords words
  let isName (w : String) : Bool :=
    if words.contains s.name then w == s.name else Text.startsWith w s.name
  let value := match words.dropWhile (· != "=") with
    | _ :: rest => nonempty? (Text.trim (" ".intercalate rest))
    | [] => none
  { name := s.name, span := some s.span, type := typeBefore? isName words, value,
    visibility := m.visibility, isStatic := m.isStatic }

def beforeParen (s : String) : String := String.ofList (s.toList.takeWhile (· != '('))

def argumentOf (written : String) : VarToken :=
  let (declaration, value) := match Text.cutFirst? ['='] written.toList with
    | some (d, v) => (Text.trimChars d, nonempty? (String.ofList (Text.trimChars v)))
    | none => (written.toList, none)
  let words := Text.words (String.ofList declaration)
  let type := " ".intercalate words.dropLast
  { name := words.getLast?.getD (String.ofList declaration), type := nonempty? type, value }

/-- The arguments between the first opening parenthesis and the next closing one, or the end
of the line. -/
def arguments (definition : String) : List VarToken :=
  match Text.cutFirst? ['('] definition.toList with
  | none => []
  | some (_, rest) =>
    let written := (Text.splitAt ',' (String.ofList (rest.takeWhile (· != ')')))).map Text.trim
    (written.filter (fun a => !a.isEmpty && a != "void")).map argumentOf

def methodOf (definition : String) (s : Symbol) : MethodToken :=
  let words := wordsOf definition
  let m := Modifiers.ofWords words
  let name := beforeParen s.name
  { name, span := some s.span
    type := if s.kind = .constructor then none
      else typeBefore? (fun w => beforeParen w == name) words
    visibility := m.visibility, isStatic := m.isStatic, arguments := arguments definition
    isAbstract := m.isAbstract, isReadonly := m.isFinal }

def entityOf (t : TokenTree) (position : NamespacePosition) (definition : String)
    (s : Symbol) : EntityToken :=
  let m := Modifiers.ofWords (wordsOf definition)
  let isOpen := s.kind = .interface
  { name := Name.qualify s.name t.space separator position, span := some s.span
    isAbstract := !isOpen && m.isAbstract, isReadonly := !isOpen && m.isFinal }

def inContainer (t : TokenTree) (s : Symbol) (f : EntityToken → EntityToken) :
    TokenTree :=
  match s.container with
  | some owner => t.updateOpen owner separator f
  | none => t

def dotted (name : String) : String :=
  ".".intercalate ((splitPath name.toList).map String.ofList)
where
  splitPath : List Char → List (List Char)
    | [] => [[]]
    | ':' :: ':' :: rest => [] :: splitPath rest
    | c :: rest =>
      match splitPath rest with
      | [] => [[c]]
      | piece :: pieces => (c :: piece) :: pieces

def addSymbol (lines : List String) (position : NamespacePosition) (t : TokenTree) (s : Symbol) :
    TokenTree :=
  let definition := definitionLine lines s.span.start.line
  match s.kind with
  | .space => t.setSpace (dotted s.name)
  | .module | .package => t.addImport { name := s.name, span := some s.span }
  | .interface => t.addEntity .interface (entityOf t position definition s)
  | .class | .struct => t.addEntity .class (entityOf t position definition s)
  | .property | .field =>
    inContainer t s (·.addProperty {
      toVarToken := variableOf definition s
      isReadonly := (wordsOf definition).contains "readonly" })
  | .method | .constructor => inContainer t s (·.addMethod (methodOf definition s))
  | .var => t.addVariable (variableOf definition s)
  | .function => t.addFunction { methodOf definition s with isStatic := true }

/-- The outline that the symbols of a text give. -/
def tree (text : String) (symbols : List Symbol) (settings : LanguageSettings) : TokenTree :=
  symbols.foldl (addSymbol (Text.lines text) settings.position) .empty

end CodeOutline.Analysis.CFamily
