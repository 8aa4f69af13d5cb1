import CodeOutline.Config
import CodeOutline.Grammar.Php
import CodeOutline.Text.Modifiers
import CodeOutline.Token.Builder

/-!
The outline of PHP documents: one walk over the statements gathers the namespace, imports,
strict mode, entities, functions and top-level assignments. Literal values are shown
shortened, and give untyped members their type.
-/

set_option autoImplicit false

namespace CodeOutline.Analysis.Php

open Syntax

/-- What stands between a namespace and a name. -/
def separator : String := "\\"

def shownItems : Nat := 2

def intOperators : List String := ["**", "|", ">>", "<<", "&", "^", "+", "-", "/", "*"]

def dropSlashes (s : String) : String := Text.dropLeft (· == '\\') s

def plainName (s : String) : String := Text.dropLeft (· == '$') s

def normalizeFrom (boundary : Bool) : List Char → List Char
  | [] => []
  | c :: cs =>
    if c = '\\' && boundary then normalizeFrom true cs
    else c :: normalizeFrom ("?|&( ".toList.contains c) cs

def normalizeType (s : String) : String :=
  String.ofList (normalizeFrom true
    (Text.trimChars ((Text.trimChars s.toList).dropWhile (· == ':'))))

def operator (n : Node) : String :=
  match n.child? "operator" with
  | some o => o.text
  | none => ((n.children.find? (!·.isNamed)).map Node.text).getD ""

def createdClass? (n : Node) : Option String :=
  (n.named.find? (fun c => c.kind == "name" || c.kind == "qualified_name")).map
    (fun c => dropSlashes c.text)

def isQuote (c : Char) : Bool := c == '\'' || c == '"'

def requote (cs : List Char) : String :=
  let inner := match cs with
    | q :: rest =>
      match rest.reverse with
      | r :: middle => if isQuote q && isQuote r then middle.reverse else cs
      | [] => cs
    | [] => cs
  String.ofList ('"' :: (inner ++ ['"']))

def constantAccess (t : TokenTree) (n : Node) : String :=
  match n.named with
  | [scope, constant] =>
    let full := dropSlashes scope.text
    let short := ((Text.splitAt '\\' full).getLast?).getD full
    (if t.isImported short then short else full) ++ "::" ++ constant.text
  | _ => n.text

/-- A literal value shown on one line; arrays inside arrays show no items. -/
def renderValue (t : TokenTree) (depth : Nat) (n : Node) : String :=
  match n.kind with
  | "array_creation_expression" =>
    if 0 < depth then "[..]"
    else
      let elements := n.named.attach.filter (fun e => e.1.kind == "array_element_initializer")
      let items := (elements.take shownItems).map (fun ⟨el, hel⟩ =>
        match hp : el.named with
        | [key, value] =>
          have hk : sizeOf key < sizeOf n := Nat.lt_trans
            (Node.sizeOf_of_mem_named (n := el) (by simp [hp])) (Node.sizeOf_of_mem_named hel)
          have hv : sizeOf value < sizeOf n := Nat.lt_trans
            (Node.sizeOf_of_mem_named (n := el) (by simp [hp])) (Node.sizeOf_of_mem_named hel)
          renderValue t (depth + 1) key ++ ": " ++ renderValue t (depth + 1) value
        | [value] =>
          have hv : sizeOf value < sizeOf n := Nat.lt_trans
            (Node.sizeOf_of_mem_named (n := el) (by simp [hp])) (Node.sizeOf_of_mem_named hel)
          renderValue t (depth + 1) value
        | _ => el.text)
      "[" ++ ", ".intercalate (items ++ (if shownItems < elements.length then [".."] else [])) ++
        "]"
  | "string" | "encapsed_string" => requote n.chars
  | "class_constant_access_expression" => constantAccess t n
  | "object_creation_expression" =>
    match createdClass? n with
    | some c => "new " ++ c
    | none => n.text
  | "binary_expression" =>
    match hl : n.child? "left", hr : n.child? "right" with
    | some left, some right =>
      have := Node.sizeOf_of_child? hl
      have := Node.sizeOf_of_child? hr
      renderValue t depth left ++ " " ++ operator n ++ " " ++ renderValue t depth right
    | _, _ => n.text
  | "parenthesized_expression" =>
    match hp : n.named with
    | inner :: _ =>
      have : sizeOf inner < sizeOf n := Node.sizeOf_of_mem_named (by simp [hp])
      "(" ++ renderValue t depth inner ++ ")"
    | [] => ""
  | _ => Text.collapse n.text
termination_by sizeOf n

def inferType (n : Node) : String :=
  match n.kind with
  | "array_creation_expression" => "array"
  | "string" | "encapsed_string" | "heredoc" | "nowdoc" => "string"
  | "integer" => "int"
  | "float" => "float"
  | "boolean" => "boolean"
  | "binary_expression" =>
    let o := operator n
    if o = "." then "string" else if intOperators.contains o then "int" else "mixed"
  | "object_creation_expression" => (createdClass? n).getD "mixed"
  | "parenthesized_expression" =>
    match hp : n.named with
    | inner :: _ =>
      have : sizeOf inner < sizeOf n := Node.sizeOf_of_mem_named (by simp [hp])
      inferType inner
    | [] => "mixed"
  | "name" =>
    let s := n.text
    if s = "__LINE__" then "int"
    else if 4 < s.utf8ByteSize && Text.startsWith s "__" && Text.endsWith s "__" then "string"
    else "mixed"
  | _ => "mixed"
termination_by sizeOf n

def modifiersBefore (n anchor : Node) : Modifiers := Modifiers.read (n.textBefore anchor)

def ofKind (n : Node) (kind : String) : List Node := n.named.filter (·.kind == kind)

def constants (t : TokenTree) (n : Node) : List VarToken :=
  let elements := ofKind n "const_element"
  let modifiers := match elements with
    | first :: _ => modifiersBefore n first
    | [] => {}
  elements.filterMap (fun element =>
    match element.named with
    | [] => none
    | name :: rest =>
      some { name := name.text, span := some name.span, visibility := modifiers.visibility,
             isStatic := true, type := rest.head?.map inferType,
             value := rest.head?.map (renderValue t 0) })

def propertyDefault? (element : Node) : Option Node :=
  match element.child? "default_value" with
  | some value => some value
  | none => element.named.find? (·.kind != "variable_name")

def properties (t : TokenTree) (n : Node) : List PropertyToken :=
  let elements := ofKind n "property_element"
  match elements with
  | [] => []
  | first :: _ =>
    let modifiers := modifiersBefore n first
    let declared := (n.child? "type").map (fun type => normalizeType type.text)
    elements.filterMap (fun element =>
      (element.first? "variable_name").map (fun name =>
        let value := propertyDefault? element
        { name := plainName name.text, span := some name.span,
          type := some ((declared.orElse (fun _ => value.map inferType)).getD "mixed"),
          value := value.map (renderValue t 0), visibility := modifiers.visibility,
          isStatic := modifiers.isStatic, isReadonly := modifiers.isReadonly }))

def parameter? (t : TokenTree) (n : Node) : Option VarToken :=
  if !Text.endsWith n.kind "parameter" then none
  else ((n.child? "name").orElse (fun _ => n.first? "variable_name")).map (fun name =>
    let before := n.textBefore name
    let signs := (if Text.contains before "&" then "&" else "") ++
      (if n.kind = "variadic_parameter" || Text.contains before "..." then "..." else "")
    let default := n.child? "default_value"
    let type := (n.child? "type").map (fun type => normalizeType type.text)
    { name := signs ++ plainName name.text, span := some name.span,
      type := some ((type.orElse (fun _ => default.map inferType)).getD "mixed"),
      value := default.map (renderValue t 0) })

def callable (t : TokenTree) (n : Node) (isFree : Bool) : MethodToken :=
  let nameNode := n.child? "name"
  let name := (nameNode.map Node.text).getD ""
  let modifiers : Modifiers := match nameNode with
    | some anchor => if isFree then {} else modifiersBefore n anchor
    | none => {}
  let untyped := ["__construct", "__destruct"].contains (Text.lowerAscii name)
  { name, span := nameNode.map Node.span,
    type := if untyped then none
      else some (((n.child? "return_type").map (fun r => normalizeType r.text)).getD "mixed"),
    visibility := modifiers.visibility, isStatic := isFree || modifiers.isStatic,
    arguments := match n.child? "parameters" with
      | some ps => ps.named.filterMap (parameter? t)
      | none => [],
    isAbstract := modifiers.isAbstract, isReadonly := modifiers.isFinal }

def addMember (t : TokenTree) (e : EntityToken) (member : Node) : EntityToken :=
  match member.kind with
  | "const_declaration" => (constants t member).foldl EntityToken.addConstant e
  | "property_declaration" => (properties t member).foldl EntityToken.addProperty e
  | "method_declaration" => e.addMethod (callable t member false)
  | "use_declaration" =>
    (member.named.filter (fun u => u.kind == "name" || u.kind == "qualified_name")).foldl
      (fun e u => e.addTrait { name := dropSlashes u.text, span := some u.span }) e
  | _ => e

/-- What the walk knows: the tree so far and the namespace in effect. -/
structure Walk where
  tree : TokenTree := .empty
  space : Option String := none

def addEntity (position : NamespacePosition) (w : Walk) (kind : EntityKind) (n : Node) :
    Walk :=
  match n.child? "name" with
  | none => w
  | some name =>
    let modifiers := modifiersBefore n name
    let bare : EntityToken := {
      name := Name.qualify name.text w.space separator position, span := some name.span
      isAbstract := modifiers.isAbstract, isReadonly := modifiers.isFinal }
    let members := match n.child? "body" with
      | some body => body.named
      | none => []
    { w with tree := w.tree.addEntity kind (members.foldl (addMember w.tree) bare) }

def isNameKind (kind : String) : Bool :=
  kind == "name" || kind == "qualified_name" || kind == "namespace_name"

def addClause (fore : Option String) (t : TokenTree) (clause : Node) : TokenTree :=
  let before := clause.children.takeWhile (·.kind != "as")
  let after := clause.children.dropWhile (·.kind != "as")
  match before.find? (fun c => isNameKind c.kind) with
  | none => t
  | some name =>
    let own := dropSlashes name.text
    let full := match fore with
      | some p => p ++ separator ++ own
      | none => own
    let localName := ((after.filter (fun c => isNameKind c.kind)).getLast?).map Node.text
    t.addImport { name := full, span := some name.span, localName }

def addUse (t : TokenTree) (n : Node) : TokenTree :=
  let fore := (n.named.find? (fun c =>
    c.kind == "namespace_name" || c.kind == "namespace_prefix")).map
    (fun c => Text.dropRight (· == '\\') (dropSlashes c.text))
  n.named.foldl (fun t child =>
    match child.kind with
    | "namespace_use_clause" => addClause fore t child
    | "namespace_use_group" =>
      (child.named.filter (fun c => Text.startsWith c.kind "namespace_use")).foldl
        (addClause fore) t
    | _ => t) t

def addDeclare (t : TokenTree) (n : Node) : TokenTree :=
  match Text.splitChars (fun c => c == '(' || c == ')') n.chars with
  | _ :: directive :: _ =>
    if (Text.cutFirst? "strict_types".toList directive).isSome then
      match Text.splitChars (· == '=') directive with
      | _ :: value :: _ => t.setStrict (Text.trimChars value == ['1'])
      | _ => t.setStrict false
    else t
  | _ => t

def addAssignment (t : TokenTree) (n : Node) : TokenTree :=
  match n.first? "assignment_expression" with
  | none => t
  | some assign =>
    match assign.child? "left", assign.child? "right" with
    | some left, some right =>
      if left.kind = "variable_name" then
        t.addVariable { name := plainName left.text, span := some left.span,
                        type := some (inferType right), value := some (renderValue t 0 right) }
      else t
    | _, _ => t

def enterSpace (w : Walk) (n : Node) : Walk :=
  let name := (n.child? "name").map (fun name => dropSlashes name.text)
  { space := name
    tree := match name with
      | some ns => if w.tree.space.isNone then w.tree.setSpace ns else w.tree
      | none => w.tree }

mutual

/-- The walk over one statement. A namespace with a body ends with it; one without holds
for what follows. -/
def visit (position : NamespacePosition) (w : Walk) : Node → Walk
  | ⟨kind, isNamed, isExtra, field, start, stop, tail, children⟩ =>
    let n : Node := ⟨kind, isNamed, isExtra, field, start, stop, tail, children⟩
    match kind with
    | "namespace_definition" =>
      let inner := enterSpace w n
      if (n.child? "body").isSome then
        { visitAll position inner children with space := w.space }
      else inner
    | "namespace_use_declaration" => { w with tree := addUse w.tree n }
    | "declare_statement" => { w with tree := addDeclare w.tree n }
    | "class_declaration" => addEntity position w .class n
    | "interface_declaration" => addEntity position w .interface n
    | "trait_declaration" => addEntity position w .trait n
    | "function_definition" => { w with tree := w.tree.addFunction (callable w.tree n true) }
    | "expression_statement" => { w with tree := addAssignment w.tree n }
    | "compound_statement" => visitAll position w children
    | _ => w

/-- The walk over statements from first to last. -/
def visitAll (position : NamespacePosition) (w : Walk) : List Node → Walk
  | [] => w
  | n :: rest => visitAll position (visit position w n) rest

end

/-- The outline of a document, nothing when it is not well formed. -/
def tree? (text : String) (settings : LanguageSettings) : Option TokenTree :=
  (Grammar.Php.read? text.toList).map (fun root =>
    (visitAll settings.position {} root.named).tree)

end CodeOutline.Analysis.Php
