import CodeOutline.Grammar.CSharp.Token

/-!
The grammar of C# as far as declarations go: bodies and values are only passed over, bracket
by bracket. What cannot be read is passed over token by token.
-/

set_option autoImplicit false

namespace CodeOutline.Grammar.CSharp

open Syntax

private inductive Name
  | item | member | type | typeArguments | group
  /-- The branches of a preprocessor condition behind the first. -/
  | branch (isMember : Bool)

private def reads : Name → Rule Name := .call

private def name : Rule Name := .leaf "identifier" nameScan

private def parens (a : Rule Name) : Rule Name := Rule.sequence [.sign "(", a, .sign ")"]

private def brackets (a : Rule Name) : Rule Name := Rule.sequence [.sign "[", a, .sign "]"]

private def braces (a : Rule Name) : Rule Name := Rule.sequence [.sign "\x7b", a, .sign "\x7d"]

private def groups : Rule Name := .many (reads .group)

private def semicolon : Rule Name := .sign ";"

private def arrow : Rule Name := .sign "=>"

private def tokenBut (excluded : String) : Rule Name :=
  Rule.choice [.leaf "string" stringScan, .leaf "character" characterScan,
    .leaf "word" (Scan.run1 isNameChar),
    .leaf "sign" (Scan.one (fun c => !("()[]\x7b\x7d#".toList ++ excluded.toList).contains c))]

private def upTo (excluded : String) : Rule Name :=
  .many (Rule.group (reads .group) (tokenBut excluded))

private def heading : Rule Name :=
  .many (Rule.choice [.node "group" (parens groups), .node "group" (brackets groups),
    .seq (.notAhead arrow) (tokenBut ";")])

private def path : Rule Name :=
  .node "qualified_name" (Rule.separated (.alt (.sign ".") (.sign "::")) name)

private def typeArgumentsRule : Rule Name :=
  .node "type_argument_list" (Rule.sequence [.sign "<",
    Rule.opt (Rule.commas (Rule.opt (reads .type))), .sign ">"])

private def typeRule : Rule Name :=
  let part := .seq name (Rule.opt (reads .typeArguments))
  let named := Rule.separated (.alt (.sign ".") (.sign "::")) part
  let tuple := parens (Rule.commas (.seq (reads .type) (Rule.opt name)))
  let pointer := .seq (.word "delegate") (.seq (.sign "*") (upTo ">"))
  let rank := .node "array_rank" (brackets (.many (.sign ",")))
  .node "type" (Rule.sequence [.many (Rule.words ["ref", "readonly", "scoped"]),
    Rule.choice [tuple, .seq pointer (.sign ">"), named],
    .many (Rule.choice [.seq (.sign "?") .done, rank, .sign "*"])])

private def lists : Rule Name := .many (.node "attribute_list" (brackets groups))

private def modifierWords : List String :=
  ["abstract", "async", "const", "extern", "file", "fixed", "internal", "new", "override",
    "partial", "private", "protected", "public", "readonly", "required", "sealed", "static",
    "unsafe", "virtual", "volatile"]

private def modifiers : Rule Name :=
  .seq lists (.many (.seq (.node "modifier" (Rule.words modifierWords))
    (.ahead (Rule.choice [.leaf "word" (Scan.run1 isNameChar), .sign "(", .sign "~", .sign "@"]))))

private def block : Rule Name := .node "block" (braces groups)

private def arrowBody : Rule Name :=
  .node "arrow_expression_clause" (Rule.sequence [arrow, upTo ";", semicolon])

private def functionBody : Rule Name := Rule.choice [block, arrowBody, semicolon]

private def typeParameters : Rule Name :=
  Rule.opt (.node "type_parameter_list" (Rule.sequence [.sign "<",
    Rule.commas (Rule.sequence [lists, Rule.opt (Rule.words ["in", "out"]), name]), .sign ">"]))

private def parameters : Rule Name := .node "parameter_list" (parens groups)

private def ofInterface : Rule Name :=
  let part := .seq name (Rule.opt (reads .typeArguments))
  .many (.node "explicit_interface_specifier" (.seq part (.sign ".")))

/-! Types with members -/

private def typeDeclaration : Rule Name :=
  let list := .field "body" (.node "declaration_list" (braces (.many (reads .member))))
  let rest := Rule.sequence [heading, .alt (.seq list (Rule.opt semicolon)) semicolon]
  let form (kind : String) (words : Rule Name) :=
    .node kind (Rule.sequence [modifiers, words, .field "name" name, rest])
  let enumeration := .node "enum_declaration" (Rule.sequence [modifiers, .word "enum", name,
    heading, block, Rule.opt semicolon])
  let delegated := .node "delegate_declaration" (Rule.sequence [modifiers, .word "delegate",
    reads .type, name, upTo ";", semicolon])
  Rule.choice [form "class_declaration" (.word "class"), form "struct_declaration"
    (.seq (Rule.opt (.word "ref")) (.word "struct")), form "interface_declaration"
    (.word "interface"),
    form "record_declaration" (.seq (.word "record") (Rule.opt (Rule.words ["class", "struct"]))),
    enumeration, delegated]

/-! Members -/

private def value : Rule Name :=
  let made := Rule.sequence [name, reads .typeArguments,
    .ahead (Rule.signs ["(", "\x7b", "[", "."])]
  Rule.many1 (.alt made (Rule.group (reads .group) (tokenBut ",;")))

private def fieldDeclaration (kind : String) (lead : Rule Name) : Rule Name :=
  let declarator := .node "variable_declarator" (Rule.sequence [.field "name" name,
    Rule.opt (.node "size" (brackets groups)), Rule.opt (.seq (.sign "=") value)])
  .node kind (Rule.sequence [modifiers, lead,
    .node "variable_declaration" (.seq (.field "type" (reads .type)) (Rule.commas declarator)),
    semicolon])

private def accessors : Rule Name := .node "accessor_list" (braces groups)

private def propertyBody : Rule Name :=
  .alt (.seq accessors (Rule.opt (Rule.sequence [.sign "=", .notAhead (.sign ">"), upTo ";",
    semicolon]))) arrowBody

private def memberDeclaration : Rule Name :=
  let method := .node "method_declaration" (Rule.sequence [modifiers,
    .field "type" (reads .type), ofInterface, .field "name" name, typeParameters, parameters,
    heading, functionBody])
  let constructor := .node "constructor_declaration" (Rule.sequence [modifiers,
    .field "name" name, parameters, heading, functionBody])
  let destructor := .node "destructor_declaration" (Rule.sequence [modifiers, .sign "~", name,
    parameters, functionBody])
  let property := .node "property_declaration" (Rule.sequence [modifiers,
    .field "type" (reads .type), ofInterface, .field "name" name, propertyBody])
  let indexer := .node "indexer_declaration" (Rule.sequence [modifiers, reads .type, ofInterface,
    .word "this", brackets groups, propertyBody])
  let kinds := .alt (Rule.words ["implicit", "explicit"]) (reads .type)
  let operator := .node "operator_declaration" (Rule.sequence [modifiers, kinds, ofInterface,
    .word "operator", heading, functionBody])
  let event := .node "event_declaration" (Rule.sequence [modifiers, .word "event", reads .type,
    ofInterface, name, accessors])
  Rule.choice [constructor, destructor, operator, indexer, method, property, event,
    fieldDeclaration "event_field_declaration" (.word "event"),
    fieldDeclaration "field_declaration" .done]

/-! Lines for the preprocessor -/

private def directive (words : List String) : Rule Name :=
  .leaf "directive" (directiveScan words.contains)

private def inner (isMember : Bool) : Rule Name :=
  .many (reads (if isMember then .member else .item))

private def branchRule (isMember : Bool) : Rule Name :=
  .alt
    (.node "preproc_elif" (Rule.sequence [directive ["elif"], inner isMember,
      Rule.opt (reads (.branch isMember))]))
    (.node "preproc_else" (.seq (directive ["else"]) (inner isMember)))

private def condition (isMember : Bool) : Rule Name :=
  .node "preproc_if" (Rule.sequence [directive ["if"], inner isMember,
    Rule.opt (reads (.branch isMember)), directive ["endif"]])

/-! Documents -/

private def passed : Rule Name := .node "ERROR" (Rule.group (reads .group) (tokenBut ""))

private def usingDirective : Rule Name :=
  .node "using_directive" (Rule.sequence [Rule.opt (.word "global"), .word "using",
    .notAhead (Rule.choice [.sign "(", .seq (.word "var") name]), heading, semicolon])

private def spaceDeclaration : Rule Name :=
  let list := .field "body" (.node "declaration_list" (braces (.many (reads .item))))
  .alt
    (.node "file_scoped_namespace_declaration" (Rule.sequence [.word "namespace",
      .field "name" path, semicolon]))
    (.node "namespace_declaration" (Rule.sequence [.word "namespace", .field "name" path, list,
      Rule.opt semicolon]))

private def itemRule : Rule Name :=
  let statement := .node "global_statement" (.seq (.notAhead (.sign "\x7b"))
    (.seq (Rule.many1 (Rule.choice [.node "group" (parens groups), .node "group" (brackets groups),
      tokenBut ";"])) (.alt block semicolon)))
  let global := .node "global_attribute" (Rule.sequence [.sign "[",
    Rule.words ["assembly", "module"], .sign ":", groups, .sign "]"])
  Rule.choice [condition false, global, usingDirective, spaceDeclaration, typeDeclaration,
    semicolon, statement, passed]

private def memberRule : Rule Name :=
  Rule.choice [condition true, typeDeclaration, memberDeclaration, semicolon, passed]

private def rules : Name → Rule Name
  | .item => itemRule
  | .member => memberRule
  | .type => typeRule
  | .typeArguments => typeArgumentsRule
  | .group => Rule.group (reads .group) (tokenBut "")
  | .branch isMember => branchRule isMember

private def grammar : Syntax.Grammar Name where
  rule := rules
  isWordChar := isNameChar
  between := fun _ => between

def read? (text : List Char) : Option Node :=
  let stray := .leaf "ERROR" (Scan.one (fun _ => true))
  grammar.read? "compilation_unit" (.many (.alt (reads .item) stray)) text

end CodeOutline.Grammar.CSharp
