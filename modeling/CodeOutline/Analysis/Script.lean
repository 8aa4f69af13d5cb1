import CodeOutline.Config
import CodeOutline.Grammar.Script
import CodeOutline.Text.Modifiers
import CodeOutline.Token.Builder

/-!
The outline of scripts, with or without types. What a document exports is public, other
entities are protected. In typed scripts a member without a type has the type of anything.
-/

set_option autoImplicit false

namespace CodeOutline.Analysis.Script

open Syntax

/-- What stands between a namespace and a name. -/
def separator : String := "."

def untyped (isTyped : Bool) : Option String := if isTyped then some "any" else none

def typeText (s : String) : String := Text.trim (Text.dropLeft (· == ':') (Text.trim s))

def noted? (n : Node) : Option String :=
  (n.child? "type").map (fun type => typeText type.text)

def typeOr (isTyped : Bool) (n : Node) : Option String :=
  (noted? n).orElse (fun _ => untyped isTyped)

def valueIn? (field : String) (n : Node) : Option String :=
  (n.child? field).map (fun v => Text.collapse v.text)

def wordsBefore (n name : Node) : Modifiers × Option Direction :=
  let words := (n.childrenBefore name).map Node.text
  (Modifiers.ofWords words, words.findSome? (fun w =>
    if w = "get" then some .get else if w = "set" then some .set else none))

def parameter? (n : Node) : Option VarToken :=
  let argument (name : Node) (ending : String) (value : Option String) : VarToken :=
    { name := name.text ++ ending, span := some name.span, type := noted? n, value }
  match n.kind with
  | "required_parameter" => (n.child? "pattern").map (argument · "" (valueIn? "value" n))
  | "optional_parameter" => (n.child? "pattern").map (argument · "?" (valueIn? "value" n))
  | "identifier" | "rest_pattern" => some (argument n "" none)
  | "assignment_pattern" => (n.child? "left").map (argument · "" (valueIn? "right" n))
  | _ => none

def callable? (isTyped : Bool) (n : Node) : Option MethodToken :=
  (n.child? "name").map (fun name =>
    { name := name.text, span := some name.span
      type := if name.text = "constructor" then none
        else ((n.child? "return_type").map (fun r => typeText r.text)).orElse
          (fun _ => untyped isTyped)
      arguments := match n.child? "parameters" with
        | some ps => ps.named.filterMap parameter?
        | none => [] })

def accessor (isTyped : Bool) (method : MethodToken) (m : Modifiers) (d : Direction) :
    AccessorToken :=
  { name := method.name, span := method.span
    type := match d with
      | .get => method.type
      | .set => (method.arguments.head?.bind (·.type)).orElse (fun _ => untyped isTyped)
    visibility := m.visibility, isStatic := m.isStatic, isReadonly := m.isReadonly
    isAbstract := m.isAbstract, direction := d }

def addMethod (isTyped : Bool) (e : EntityToken) (n : Node) : EntityToken :=
  match n.child? "name", callable? isTyped n with
  | some name, some method =>
    match wordsBefore n name with
    | (m, some d) => e.addAccessor (accessor isTyped method m d)
    | (m, none) => e.addMethod { method with
        visibility := m.visibility, isStatic := m.isStatic, isAbstract := m.isAbstract
        isReadonly := m.isReadonly }
  | _, _ => e

def addField (isTyped : Bool) (e : EntityToken) (n : Node) : EntityToken :=
  match n.child? "name" with
  | none => e
  | some name =>
    let (m, _) := wordsBefore n name
    e.addProperty {
      name := name.text, span := some name.span, type := typeOr isTyped n
      value := valueIn? "value" n, visibility := m.visibility, isStatic := m.isStatic
      isReadonly := m.isReadonly }

def addClassMember (isTyped : Bool) (e : EntityToken) (n : Node) : EntityToken :=
  match n.kind with
  | "method_definition" | "method_signature" => addMethod isTyped e n
  | "field_definition" => addField isTyped e n
  | _ => e

def addInterfaceMember (isTyped : Bool) (e : EntityToken) (n : Node) : EntityToken :=
  match n.kind with
  | "property_signature" =>
    match n.child? "name" with
    | none => e
    | some name => e.addProperty {
        name := name.text, span := some name.span, type := typeOr isTyped n
        isReadonly := n.children.any (fun c => c.text == "readonly") }
  | "method_signature" =>
    match callable? isTyped n with
    | some method => e.addMethod method
    | none => e
  | _ => e

/-- What a statement is read with: whether there are types, where namespaces go in names,
whether the statement is exported, and the namespace it stands in. -/
structure Setting where
  isTyped : Bool
  position : NamespacePosition
  isExported : Bool := false
  space : Option String := none

def addEntity (s : Setting) (kind : EntityKind)
    (addMember : Bool → EntityToken → Node → EntityToken) (t : TokenTree) (n : Node) :
    TokenTree :=
  match n.child? "name" with
  | none => t
  | some name =>
    let members := match n.child? "body" with
      | some body => body.named
      | none => []
    t.addEntity kind (members.foldl (addMember s.isTyped) {
      name := Name.qualify name.text s.space separator s.position, span := some name.span
      visibility := if s.isExported then .pub else .prot
      isAbstract := n.kind == "abstract_class_declaration" })

def addImport (t : TokenTree) (n : Node) : TokenTree :=
  match n.child? "source" with
  | none => t
  | some source =>
    let library := Text.unquote source.text
    let parts := match n.first? "import_clause" with
      | some clause => clause.named
      | none => []
    let listed := parts.foldl (fun names part =>
      if part.kind = "named_imports" then
        names ++ (part.named.filter (·.kind == "import_specifier")).filterMap
          (fun s => (s.child? "name").map Node.text)
      else names) []
    let localName := parts.foldl (fun localName part =>
      match part.kind with
      | "namespace_import" => (part.first? "identifier").map Node.text
      | "identifier" => some part.text
      | _ => localName) none
    t.addImport {
      name := if listed.isEmpty then library else library ++ ": " ++ ", ".intercalate listed
      span := some source.span, localName }

def addVariables (isTyped : Bool) (t : TokenTree) (n : Node) : TokenTree :=
  (n.named.filter (·.kind == "variable_declarator")).foldl (fun t declarator =>
    match declarator.child? "name" with
    | some name =>
      if name.kind = "identifier" then
        t.addVariable {
          name := name.text, span := some name.span, type := typeOr isTyped declarator
          value := valueIn? "value" declarator }
      else t
    | none => t) t

def addFunction (isTyped : Bool) (t : TokenTree) (n : Node) : TokenTree :=
  match callable? isTyped n with
  | some f => t.addFunction { f with isStatic := true }
  | none => t

def innerSpace (outer : Option String) (name : Node) : String :=
  let own := Text.unquote name.text
  match outer with
  | some outer => outer ++ separator ++ own
  | none => own

/-- The walk over one statement. Only the first namespace becomes the document's own. -/
def visit (s : Setting) (t : TokenTree) (n : Node) : TokenTree :=
  match n.kind with
  | "import_statement" => addImport t n
  | "export_statement" =>
    match h : n.child? "declaration" with
    | some declared =>
      have := Node.sizeOf_of_child? h
      visit { s with isExported := true } t declared
    | none =>
      n.named.attach.foldl (fun t ⟨c, hc⟩ =>
        have := Node.sizeOf_of_mem_named hc
        visit { s with isExported := true } t c) t
  | "internal_module" | "module" =>
    match n.child? "name" with
    | none => t
    | some name =>
      let space := innerSpace s.space name
      let t := if t.space.isNone then t.setSpace space else t
      match hb : n.child? "body" with
      | none => t
      | some body =>
        body.named.attach.foldl (fun t ⟨c, hc⟩ =>
          have := Nat.lt_trans (Node.sizeOf_of_mem_named hc) (Node.sizeOf_of_child? hb)
          visit { s with isExported := false, space := some space } t c) t
  | "expression_statement" =>
    (n.named.filter (·.kind == "internal_module")).attach.foldl (fun t ⟨c, hc⟩ =>
      have := Node.sizeOf_of_mem_named (List.mem_filter.1 hc).1
      visit s t c) t
  | "ambient_declaration" =>
    n.named.attach.foldl (fun t ⟨c, hc⟩ =>
      have := Node.sizeOf_of_mem_named hc
      visit s t c) t
  | "class_declaration" | "abstract_class_declaration" | "class" =>
    addEntity s .class addClassMember t n
  | "interface_declaration" => addEntity s .interface addInterfaceMember t n
  | "function_declaration" => addFunction s.isTyped t n
  | "lexical_declaration" | "variable_declaration" => addVariables s.isTyped t n
  | _ => t
termination_by sizeOf n

/-- The first statement asks for strict mode. -/
def isStrict (root : Node) : Bool :=
  match root.named.find? (fun n => n.kind != "comment" && n.kind != "hash_bang_line") with
  | some n =>
    n.kind == "expression_statement" &&
      Text.unquote (Text.dropRight (· == ';') n.text) == "use strict"
  | none => false

def dialectOf (language : String) (isMarkupFile : Bool) : Grammar.Script.Dialect :=
  match Text.lowerAscii language with
  | "javascript" | "javascriptreact" => ⟨false, true⟩
  | "typescriptreact" => ⟨true, true⟩
  | _ => ⟨true, isMarkupFile⟩

/-- The outline of a document. -/
def tree? (text : String) (dialect : Grammar.Script.Dialect) (settings : LanguageSettings) :
    Option TokenTree :=
  (Grammar.Script.read? dialect text.toList).map (fun root =>
    let start := if isStrict root then TokenTree.empty.setStrict true else .empty
    root.named.foldl (visit { isTyped := dialect.isTyped, position := settings.position }) start)

end CodeOutline.Analysis.Script
