import CodeOutline.Grammar.Python
import CodeOutline.Text.Comment
import CodeOutline.Token.Builder

/-!
The outline of Python documents. Instance properties are recovered from assignments to
attributes of `self`, and imports from the lines before the first statement of another kind.
What a name may be used for is told by its leading underscores.
-/

set_option autoImplicit false

namespace CodeOutline.Analysis.Python

open Syntax

/-- Two leading underscores make a name private, unless two end it as well; one makes it
protected. -/
def visibilityOf (name : String) : Visibility :=
  if Text.startsWith name "__" then if Text.endsWith name "__" then .pub else .priv
  else if Text.startsWith name "_" then .prot
  else .pub

def isTypeChar (c : Char) : Bool := Text.isAlphanumeric c || c == '_' || c == '.'

def inferType (value : String) : String :=
  match Text.trimChars value.toList with
  | [] => "any"
  | c :: cs =>
    if c.isDigit || (c == '-' && (cs.head?.map Char.isDigit).getD false) then "number"
    else if c == '"' || c == '\'' then "string"
    else if c == '\x7b' then "dict"
    else if c == '[' then "list"
    else if c == '(' then "tuple"
    else if Text.isCapital c then String.ofList ((c :: cs).takeWhile isTypeChar)
    else "any"

def valueIn? (field : String) (n : Node) : Option String :=
  (n.child? field).map (fun v => Text.collapse v.text)

def typeOr (n : Node) (value : Option String) : Option String :=
  ((n.child? "type").map Node.text).orElse (fun _ => value.map inferType)

/-! Definitions -/

def dropAt (decorator : String) : String := Text.dropLeft (· == '@') decorator

def isMarked (decorators : List String) (name : String) : Bool :=
  decorators.any (fun d => (Text.splitAt '.' (dropAt d)).getLast? == some name)

def direction? (decorators : List String) : Option Direction :=
  decorators.findSome? (fun d =>
    if dropAt d = "property" then some .get
    else if Text.endsWith (dropAt d) ".setter" then some .set
    else none)

def parameter? (n : Node) : Option VarToken :=
  let argument (name : String) (value : Option String) : VarToken :=
    { name, span := some n.span, type := typeOr n value, value }
  match n.kind with
  | "identifier" | "list_splat_pattern" | "dictionary_splat_pattern" => some (argument n.text none)
  | "typed_parameter" => n.named.head?.map (fun inner => argument inner.text none)
  | "default_parameter" | "typed_default_parameter" =>
    (n.child? "name").map (fun name => argument name.text (valueIn? "value" n))
  | _ => none

def withoutReceiver (arguments : List VarToken) : List VarToken :=
  match arguments with
  | first :: rest => if first.name = "self" || first.name = "cls" then rest else arguments
  | [] => []

def callable? (n : Node) (decorators : List String) (isMethod : Bool) :
    Option MethodToken :=
  (n.child? "name").map (fun name =>
    let isStatic := isMarked decorators "staticmethod"
    let arguments := match n.child? "parameters" with
      | some ps => ps.named.filterMap parameter?
      | none => []
    { name := name.text, span := some name.span
      type := (n.child? "return_type").map Node.text, visibility := visibilityOf name.text
      isStatic := isStatic || isMarked decorators "classmethod"
      arguments := if isMethod && !isStatic then withoutReceiver arguments else arguments
      isAbstract := isMarked decorators "abstractmethod" })

def undecorated (n : Node) : List String × Node :=
  if n.kind = "decorated_definition" then
    ((n.named.filter (·.kind == "decorator")).map Node.text, (n.child? "definition").getD n)
  else ([], n)

def assignments (statement : Node) : List VarToken :=
  (statement.named.filter (·.kind == "assignment")).filterMap (fun assign =>
    match assign.child? "left" with
    | some left =>
      if left.kind = "identifier" then
        let value := valueIn? "right" assign
        some { name := left.text, span := some left.span, type := typeOr assign value, value,
               visibility := visibilityOf left.text }
      else none
    | none => none)

def selfProperty? (assign : Node) : Option PropertyToken := do
  let left ← assign.child? "left"
  let object ← left.child? "object"
  let name ← left.child? "attribute"
  let value := valueIn? "right" assign
  if left.kind = "attribute" && object.kind = "identifier" && object.text = "self" then
    some { name := name.text, span := some name.span, type := typeOr assign value, value,
           visibility := visibilityOf name.text }
  else none

mutual

def selfProperties : Node → List PropertyToken
  | ⟨kind, isNamed, isExtra, field, start, stop, tail, children⟩ =>
    let own := if kind = "assignment" then
        (selfProperty? ⟨kind, isNamed, isExtra, field, start, stop, tail, children⟩).toList
      else []
    if kind = "class_definition" then [] else own ++ selfPropertiesIn children

def selfPropertiesIn : List Node → List PropertyToken
  | [] => []
  | n :: rest => selfProperties n ++ selfPropertiesIn rest

end

def accessor (method : MethodToken) (d : Direction) : AccessorToken :=
  { name := method.name, span := method.span
    type := match d with
      | .get => method.type
      | .set => method.arguments.head?.bind (·.type)
    visibility := method.visibility, isAbstract := method.isAbstract, direction := d }

def addMember (e : EntityToken) (n : Node) : EntityToken :=
  let (decorators, definition) := undecorated n
  match definition.kind with
  | "function_definition" =>
    match callable? definition decorators true, direction? decorators with
    | some method, some d => e.addAccessor (accessor method d)
    | some method, none => e.addMethod method
    | none, _ => e
  | "expression_statement" =>
    (assignments definition).foldl (fun e v =>
      e.addProperty { toVarToken := { v with isStatic := true } }) e
  | _ => e

def class? (n : Node) : Option EntityToken :=
  (n.child? "name").map (fun name =>
    let bare : EntityToken := {
      name := name.text, span := some name.span, visibility := visibilityOf name.text }
    match n.child? "body" with
    | none => bare
    | some body =>
      (selfPropertiesIn body.children).foldl EntityToken.addProperty
        (body.named.foldl addMember bare))

/-! Imports -/

def cut? (s mark : String) : Option (String × String) :=
  (Text.cutFirst? mark.toList s.toList).map
    (fun (before, after) => (String.ofList before, String.ofList after))

def listed (s : String) : List String :=
  ((Text.splitAt ',' s).map Text.trim).filter (fun part => !part.isEmpty)

def dropParens (s : String) : String :=
  let isOuter (c : Char) : Bool := c == '(' || c == ')' || Text.isBlank c
  Text.dropRight isOuter (Text.dropLeft isOuter s)

def fromImport (number : Nat) (line source names : String) : ImportToken :=
  let source := Text.trim source
  let span := some (Text.placeInLine number line source)
  let names := listed (dropParens names)
  match names.map (fun n => cut? n " as ") with
  | [some (symbol, localName)] =>
    { name := source ++ ": " ++ Text.trim symbol, span, localName := some (Text.trim localName) }
  | _ => { name := source ++ ": " ++ ", ".intercalate names, span }

def plainImport (number : Nat) (line part : String) : ImportToken :=
  let (name, localName) := match cut? part " as " with
    | some (name, localName) => (Text.trim name, some (Text.trim localName))
    | none => (part, none)
  { name, span := some (Text.placeInLine number line name), localName }

def lineImports (number : Nat) (line : String) : List ImportToken :=
  let trimmed := Text.trim line
  if Text.startsWith trimmed "#" || !Text.contains trimmed "import " then []
  else match Text.afterStart? "from " trimmed with
    | some rest =>
      match cut? rest " import " with
      | some (source, names) => [fromImport number line source names]
      | none => []
    | none =>
      match Text.afterStart? "import " trimmed with
      | some rest => (listed rest).map (plainImport number line)
      | none => []

def recoveredImports (text : String) (limit : Option Nat) : List ImportToken :=
  let lines := Text.lines text
  let shown := match limit with
    | some limit => lines.take limit
    | none => lines
  shown.zipIdx.flatMap (fun (line, number) => lineImports number line)

def isPreamble (n : Node) : Bool :=
  ["import_statement", "import_from_statement", "comment"].contains n.kind ||
    (n.kind == "expression_statement" && (n.named.head?.map (·.kind)) == some "string")

def addStatement (t : TokenTree) (n : Node) : TokenTree :=
  let (decorators, definition) := undecorated n
  match definition.kind with
  | "class_definition" =>
    match class? definition with
    | some e => t.addEntity .class e
    | none => t
  | "function_definition" =>
    match callable? definition decorators false with
    | some f => t.addFunction { f with isStatic := true }
    | none => t
  | "expression_statement" => (assignments definition).foldl TokenTree.addVariable t
  | _ => t

/-- The outline of a text from the root node of its tree. -/
def treeOf (text : String) (root : Node) : TokenTree :=
  let limit := (root.named.find? (fun n => !isPreamble n)).map (·.start.line)
  root.named.foldl addStatement
    ((recoveredImports text limit).foldl TokenTree.addImport .empty)

/-- The outline of a document. -/
def tree? (text : String) : Option TokenTree :=
  (Grammar.Python.read? text.toList).map (treeOf text)

end CodeOutline.Analysis.Python
