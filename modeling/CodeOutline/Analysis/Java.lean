import CodeOutline.Config
import CodeOutline.Grammar.Java
import CodeOutline.Text.Modifiers
import CodeOutline.Token.Builder

/-!
The outline of Java documents: package, imports, and the types at file level. Static final
fields, and all fields of interfaces, are constants; other fields are properties.
-/

set_option autoImplicit false

namespace CodeOutline.Analysis.Java

open Syntax

/-- What stands between a package and a name. -/
def separator : String := "."

/-- The text of an array value is cut to so many characters. -/
def shownChars : Nat := 32

def declarationsOf (kind : String) (root : Node) : List Node :=
  root.children.filter (·.kind == kind)

def isPath (n : Node) : Bool := n.kind == "scoped_identifier" || n.kind == "identifier"

def package? (root : Node) : Option String :=
  (declarationsOf "package_declaration" root).findSome?
    (fun n => (n.named.find? isPath).map Node.text)

def importOf? (n : Node) : Option ImportToken :=
  (n.named.find? isPath).map (fun path =>
    { name := path.text ++ (if n.chars.contains '*' then ".*" else ""), span := some path.span })

def modifiers (n : Node) : Modifiers :=
  match n.first? "modifiers" with
  | some m => Modifiers.read m.text
  | none => {}

def dropBraces (cs : List Char) : List Char :=
  (cs.reverse.dropWhile (· == '\x7d')).reverse

/-- A value on one line; of a braced array value the part between the braces, cut short. -/
def renderValue (n : Node) : String :=
  let text := Text.collapse n.text
  if n.kind = "array_initializer" || n.kind = "array_creation_expression" then
    let inner := match Text.cutFirst? ['\x7b'] text.toList with
      | some (_, rest) => Text.trimChars (dropBraces rest)
      | none => text.toList
    if shownChars < inner.length then
      "[" ++ String.ofList (inner.take shownChars) ++ "...]"
    else "[" ++ String.ofList inner ++ "]"
  else text

def fieldType? (n : Node) : Option String := (n.child? "type").map Node.text

def addField (ofInterface : Bool) (e : EntityToken) (n : Node) : EntityToken :=
  let m := modifiers n
  let isConstant := ofInterface || (m.isStatic && m.isFinal)
  (n.named.filter (·.kind == "variable_declarator")).foldl (fun e declarator =>
    match declarator.child? "name" with
    | none => e
    | some name =>
      let v : VarToken := {
        name := name.text, span := some name.span, type := fieldType? n
        value := (declarator.child? "value").map renderValue, visibility := m.visibility
        isStatic := m.isStatic }
      if isConstant then
        e.addConstant { v with
          visibility := if ofInterface then .pub else m.visibility
          isStatic := true }
      else e.addProperty { toVarToken := v, isReadonly := m.isFinal }) e

def parameter? (n : Node) : Option VarToken :=
  match n.kind with
  | "formal_parameter" =>
    (n.child? "name").map (fun name =>
      { name := name.text, span := some name.span, type := fieldType? n })
  | "spread_parameter" => do
    let declarator ← n.first? "variable_declarator"
    let name ← declarator.child? "name"
    let type := n.named.find? (fun c => c.kind != "variable_declarator" && c.kind != "modifiers")
    some { name := name.text, span := some name.span,
           type := type.map (fun type => type.text ++ "...") }
  | _ => none

def method? (ofInterface : Bool) (n : Node) : Option MethodToken :=
  (n.child? "name").map (fun name =>
    let m := modifiers n
    { name := name.text, span := some name.span,
      type := if n.kind = "constructor_declaration" then none else fieldType? n,
      visibility := m.visibility, isStatic := m.isStatic,
      arguments := match n.child? "parameters" with
        | some ps => ps.named.filterMap parameter?
        | none => [],
      isAbstract := m.isAbstract || (ofInterface && (n.child? "body").isNone && !m.isStatic),
      isReadonly := m.isFinal })

def addMember (ofInterface : Bool) (e : EntityToken) (member : Node) : EntityToken :=
  match member.kind with
  | "field_declaration" | "constant_declaration" => addField ofInterface e member
  | "method_declaration" | "constructor_declaration" =>
    match method? ofInterface member with
    | some m => e.addMethod m
    | none => e
  | _ => e

def membersOf (n : Node) : List Node :=
  match n.child? "body" with
  | some body => body.named.flatMap (fun c =>
      if c.kind = "enum_body_declarations" then c.named else [c])
  | none => []

def entity? (space : Option String) (position : NamespacePosition) (ofInterface : Bool)
    (n : Node) : Option EntityToken :=
  (n.child? "name").map (fun name =>
    let m := modifiers n
    (membersOf n).foldl (addMember ofInterface) {
      name := Name.qualify name.text space separator position, span := some name.span
      visibility := m.visibility, isAbstract := m.isAbstract, isReadonly := m.isFinal })

def addEntity (position : NamespacePosition) (space : Option String) (t : TokenTree)
    (n : Node) : TokenTree :=
  let put (kind : EntityKind) : TokenTree :=
    match entity? space position (kind == .interface) n with
    | some e => t.addEntity kind e
    | none => t
  match n.kind with
  | "class_declaration" | "enum_declaration" | "record_declaration" => put .class
  | "interface_declaration" => put .interface
  | _ => t

/-- The outline of a document, nothing when it is not well formed. -/
def tree? (text : String) (settings : LanguageSettings) : Option TokenTree :=
  (Grammar.Java.read? text.toList).map (fun root =>
    let start := match package? root with
      | some ns => TokenTree.empty.setSpace ns
      | none => .empty
    let imported := ((declarationsOf "import_declaration" root).filterMap importOf?).foldl
      TokenTree.addImport start
    root.named.foldl (addEntity settings.position start.space) imported)

end CodeOutline.Analysis.Java
