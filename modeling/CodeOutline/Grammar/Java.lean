import CodeOutline.Grammar.Java.Token

/-!
The grammar of Java documents.
-/

set_option autoImplicit false

namespace CodeOutline.Grammar.Java

open Syntax

inductive Name
  | statement | block | expression
  /-- Operators from the given level of binding strength on. -/
  | binary (level : Nat)
  | unary | postfixed | primary | arguments | type | typeArguments | marker
  | classMember | interfaceMember | arrayInitializer | parameters | declaration | pattern
  | switchBlock | elementValue

def reads : Name → Rule Name := .call

def operators : List String :=
  ["=", "==", "!", "!=", "<", "<=", "<<", "<<=", ">", ">=", ">>", ">>=", ">>>", ">>>=", "+",
    "++", "+=", "-", "--", "-=", "->", "*", "*=", "/", "/=", "%", "%=", "&", "&&", "&=", "|",
    "||", "|=", "^", "^=", "?", "~", ":", "::"]

def op (wanted : List String) : Rule Name := .longest operators wanted

def name : Rule Name := .leaf "identifier" nameScan

def parens (a : Rule Name) : Rule Name := Rule.sequence [.sign "(", a, .sign ")"]

def braces (a : Rule Name) : Rule Name := Rule.sequence [.sign "\x7b", a, .sign "\x7d"]

def semicolon : Rule Name := .sign ";"

def path : Rule Name :=
  .chain name (.wrap "scoped_identifier" "scope" (Rule.sequence [.sign ".", name]))

def annotations : Rule Name := .many (reads .marker)

def modifiers : Rule Name :=
  Rule.opt (.node "modifiers" (Rule.many1 (Rule.choice [reads .marker,
    Rule.words ["public", "protected", "private", "abstract", "static", "final", "strictfp",
      "synchronized", "native", "transient", "volatile"],
    .seq (.word "default") (.notAhead (op [":", "->"])), .word "sealed",
    .sign "non-sealed"])))

def types : Rule Name := Rule.commas (reads .type)

def typeParameters : Rule Name :=
  Rule.opt (.node "type_parameters" (Rule.sequence [.sign "<",
    Rule.commas (Rule.sequence [annotations, name,
      Rule.opt (.seq (.word "extends") (Rule.separated (.sign "&") (reads .type)))]),
    .sign ">"]))

def dimensions : Rule Name :=
  Rule.many1 (Rule.sequence [annotations, .sign "[", .sign "]"])

def initial : Rule Name :=
  .seq (op ["="]) (.field "value" (.alt (reads .arrayInitializer) (reads .expression)))

def declarators : Rule Name :=
  Rule.commas (.node "variable_declarator" (Rule.sequence [.field "name" name,
    Rule.opt dimensions, Rule.opt initial]))

def typed : Rule Name := .field "type" (reads .type)

def throws : Rule Name := Rule.opt (.node "throws" (.seq (.word "throws") types))

def bodied (kind : String) (member : Rule Name) : Rule Name :=
  .field "body" (.node kind (braces (.many member)))

def classBody : Rule Name := bodied "class_body" (reads .classMember)

def implemented : Rule Name :=
  Rule.opt (.node "super_interfaces" (.seq (.word "implements") types))

def permitted : Rule Name := Rule.opt (.node "permits" (.seq (.word "permits") types))

def heading (kind word : String) (rest : List (Rule Name)) : Rule Name :=
  .node kind (Rule.sequence ([modifiers, .word word, .field "name" name, typeParameters] ++ rest))

def enumBody : Rule Name :=
  let constant := .node "enum_constant" (Rule.sequence [modifiers, .field "name" name,
    Rule.opt (reads .arguments), Rule.opt classBody])
  .field "body" (.node "enum_body" (braces (Rule.sequence [
    Rule.opt (Rule.commas constant), Rule.opt (.sign ","),
    Rule.opt (.node "enum_body_declarations" (.seq semicolon (.many (reads .classMember))))])))

def annotationType : Rule Name :=
  .node "annotation_type_declaration" (Rule.sequence [modifiers, .sign "@", .word "interface",
    .field "name" name,
    bodied "annotation_type_body" (.alt
      (.node "annotation_type_element_declaration" (Rule.sequence [modifiers, typed,
        .field "name" name, .sign "(", .sign ")", Rule.opt dimensions,
        Rule.opt (.seq (.word "default") (reads .elementValue)), semicolon]))
      (reads .interfaceMember))])

def declarationRule : Rule Name :=
  Rule.choice [
    heading "class_declaration" "class" [
      Rule.opt (.node "superclass" (.seq (.word "extends") (reads .type))), implemented,
      permitted, classBody],
    heading "enum_declaration" "enum" [implemented, enumBody],
    heading "record_declaration" "record" [.field "parameters" (reads .parameters), implemented,
      classBody],
    heading "interface_declaration" "interface" [
      Rule.opt (.node "extends_interfaces" (.seq (.word "extends") types)), permitted,
      bodied "interface_body" (reads .interfaceMember)],
    annotationType]

def method : Rule Name :=
  .node "method_declaration" (Rule.sequence [modifiers, typeParameters, annotations, typed,
    .field "name" name, .field "parameters" (reads .parameters), Rule.opt dimensions, throws,
    .alt (.field "body" (reads .block)) semicolon])

def constructor : Rule Name :=
  .node "constructor_declaration" (Rule.sequence [modifiers, typeParameters, .field "name" name,
    .field "parameters" (reads .parameters), throws, .field "body" (reads .block)])

def fieldOf (kind : String) : Rule Name :=
  .node kind (Rule.sequence [modifiers, typed, declarators, semicolon])

def classMemberRule : Rule Name :=
  Rule.choice [semicolon, reads .declaration, method, constructor, fieldOf "field_declaration",
    .node "compact_constructor_declaration" (Rule.sequence [modifiers, .field "name" name,
      .field "body" (reads .block)]),
    .node "static_initializer" (.seq (.word "static") (reads .block)), reads .block]

def interfaceMemberRule : Rule Name :=
  Rule.choice [semicolon, reads .declaration, method, fieldOf "constant_declaration"]

def parametersRule : Rule Name :=
  let receiver := Rule.sequence [annotations, reads .type,
    .many (.seq name (.sign ".")), .word "this"]
  let spread := .node "spread_parameter" (Rule.sequence [modifiers, reads .type, .sign "...",
    annotations, .node "variable_declarator" (.seq (.field "name" name) (Rule.opt dimensions))])
  let plain := .node "formal_parameter" (Rule.sequence [modifiers, typed, .field "name" name,
    Rule.opt dimensions])
  .node "formal_parameters" (parens (Rule.commas0
    (Rule.choice [.node "receiver_parameter" receiver, spread, plain])))

def primitiveWords : List String :=
  ["boolean", "byte", "char", "short", "int", "long", "float", "double", "void"]

def typeRule : Rule Name :=
  let one := .seq name (Rule.opt (reads .typeArguments))
  let named := Rule.separated (.seq (.sign ".") annotations) one
  .node "type" (Rule.sequence [annotations, .alt (Rule.words primitiveWords) named,
    Rule.opt dimensions])

def typeArgumentsRule : Rule Name :=
  let wildcard := Rule.sequence [annotations, .sign "?",
    Rule.opt (.seq (Rule.words ["extends", "super"]) (reads .type))]
  .node "type_arguments" (Rule.sequence [.sign "<",
    Rule.commas0 (.alt wildcard (reads .type)), .sign ">"])

def elementValueRule : Rule Name :=
  Rule.choice [
    .node "element_value_array_initializer" (braces (Rule.sequence [
      Rule.opt (Rule.commas (reads .elementValue)), Rule.opt (.sign ",")])),
    reads .marker, reads .expression]

def markerRule : Rule Name :=
  let pair := .node "element_value_pair" (Rule.sequence [name, op ["="], reads .elementValue])
  .node "annotation" (Rule.sequence [.sign "@", path,
    Rule.opt (.node "annotation_argument_list" (parens (Rule.opt
      (.alt (Rule.commas pair) (reads .elementValue)))))])

def condition : Rule Name := .node "parenthesized_expression" (parens (reads .expression))

def localVariable : Rule Name :=
  .node "local_variable_declaration" (Rule.sequence [modifiers, typed, declarators])

def expressions : Rule Name := Rule.commas0 (reads .expression)

def forHead : Rule Name :=
  .alt
    (Rule.sequence [modifiers, typed, .field "name" name, Rule.opt dimensions, op [":"],
      reads .expression])
    (Rule.sequence [.alt localVariable expressions, semicolon, Rule.opt (reads .expression),
      semicolon, expressions])

def tryRest : Rule Name :=
  let handler := .node "catch_clause" (Rule.sequence [.word "catch",
    parens (Rule.sequence [modifiers, Rule.separated (op ["|"]) (reads .type), name]),
    reads .block])
  .seq (.many handler) (Rule.opt (.node "finally_clause" (.seq (.word "finally") (reads .block))))

def resources : Rule Name :=
  let resource := .node "resource" (.alt
    (Rule.sequence [modifiers, typed, name, op ["="], reads .expression]) (reads .postfixed))
  .node "resource_specification" (parens (.seq (Rule.separated semicolon resource)
    (Rule.opt semicolon)))

def moduleDeclaration : Rule Name :=
  let list (word : String) := Rule.opt (.seq (.word word) (Rule.commas path))
  let directive := Rule.choice [
    Rule.sequence [.word "requires", .many (Rule.words ["transitive", "static"]), path],
    Rule.sequence [Rule.words ["exports", "opens"], path, list "to"],
    .seq (.word "uses") path, Rule.sequence [.word "provides", path, list "with"]]
  .node "module_declaration" (Rule.sequence [annotations, Rule.opt (.word "open"),
    .word "module", path, braces (.many (.seq directive semicolon))])

def statementRule : Rule Name :=
  Rule.choice [
    .node "package_declaration" (Rule.sequence [annotations, .word "package", path, semicolon]),
    .node "import_declaration" (Rule.sequence [.word "import", Rule.opt (.word "static"), path,
      Rule.opt (.seq (.sign ".") (.leaf "asterisk" (Scan.text "*"))), semicolon]),
    reads .declaration, reads .block, semicolon,
    .node "if_statement" (Rule.sequence [.word "if", condition, reads .statement,
      Rule.opt (.seq (.word "else") (reads .statement))]),
    .node "while_statement" (Rule.sequence [.word "while", condition, reads .statement]),
    .node "do_statement" (Rule.sequence [.word "do", reads .statement, .word "while", condition,
      semicolon]),
    .node "for_statement" (Rule.sequence [.word "for", parens forHead, reads .statement]),
    .node "try_statement" (Rule.sequence [.word "try", Rule.opt resources, reads .block,
      tryRest]),
    .node "synchronized_statement" (Rule.sequence [.word "synchronized", condition,
      reads .block]),
    .node "assert_statement" (Rule.sequence [.word "assert", reads .expression,
      Rule.opt (.seq (op [":"]) (reads .expression)), semicolon]),
    .node "jump_statement" (Rule.sequence [Rule.words ["break", "continue"], Rule.opt name,
      semicolon]),
    .node "return_statement" (Rule.sequence [.word "return", Rule.opt (reads .expression),
      semicolon]),
    .node "throw_statement" (Rule.sequence [.word "throw", reads .expression, semicolon]),
    .node "switch_expression" (Rule.sequence [.word "switch", condition, reads .switchBlock]),
    .node "labeled_statement" (Rule.sequence [name, op [":"], reads .statement]),
    .node "yield_statement" (Rule.sequence [.word "yield",
      .notAhead (op ["=", "++", "--", "+=", "-="]), reads .expression, semicolon]),
    .seq localVariable semicolon,
    .node "expression_statement" (.seq (reads .expression) semicolon),
    moduleDeclaration]

def patternRule : Rule Name :=
  let record := .node "record_pattern" (Rule.sequence [reads .type,
    parens (Rule.commas0 (.alt (reads .pattern) (.word "_"))), Rule.opt name])
  .alt record (.node "type_pattern" (Rule.sequence [modifiers, reads .type, name]))

def switchBlockRule : Rule Name :=
  let follow := Rule.alt (op ["->", ":"]) (.alt (.sign ",") (.word "when"))
  let constant := Rule.choice [.seq path (.ahead follow), .seq (reads .pattern) (.ahead follow),
    .word "default", reads .expression]
  let guard := Rule.opt (.node "guard" (.seq (.word "when") (reads .expression)))
  let label := .node "switch_label" (.alt
    (Rule.sequence [.word "case", Rule.commas constant, guard]) (.word "default"))
  let arrow := .node "switch_rule" (Rule.sequence [label, op ["->"], Rule.choice [reads .block,
    .node "throw_statement" (Rule.sequence [.word "throw", reads .expression, semicolon]),
    .node "expression_statement" (.seq (reads .expression) semicolon)]])
  let group := .node "switch_block_statement_group"
    (.seq (Rule.many1 (.seq label (op [":"]))) (.many (reads .statement)))
  .node "switch_block" (braces (.alt (Rule.many1 arrow) (.many group)))

def arrayInitializerRule : Rule Name :=
  .node "array_initializer" (braces (Rule.sequence [
    Rule.opt (Rule.commas (.alt (reads .arrayInitializer) (reads .expression))),
    Rule.opt (.sign ",")]))

def lambda : Rule Name :=
  let inferred := .node "inferred_parameters" (parens (Rule.commas0 name))
  .node "lambda_expression" (Rule.sequence [
    .field "parameters" (Rule.choice [name, inferred, reads .parameters]), op ["->"],
    .field "body" (.alt (reads .block) (reads .expression))])

def creation : Rule Name :=
  let element := Rule.sequence [annotations, .alt (Rule.words primitiveWords)
    (Rule.separated (.sign ".") (.seq name (Rule.opt (reads .typeArguments))))]
  let sized := .seq (Rule.many1 (Rule.sequence [annotations, .sign "[", reads .expression,
    .sign "]"])) (Rule.opt dimensions)
  .alt
    (.node "array_creation_expression" (Rule.sequence [.word "new", element,
      .alt sized (.seq dimensions (.field "value" (reads .arrayInitializer)))]))
    (.node "object_creation_expression" (Rule.sequence [.word "new",
      Rule.opt (reads .typeArguments), element, reads .arguments, Rule.opt classBody]))

def literal : Rule Name :=
  Rule.choice [.leaf "decimal_floating_point_literal" floatScan,
    .leaf "decimal_integer_literal" integerScan, .leaf "string_literal" stringScan,
    .leaf "character_literal" characterScan, .node "true" (.word "true"),
    .node "false" (.word "false"), .node "null_literal" (.word "null")]

def primaryRule : Rule Name :=
  let ofType := .seq (reads .type) (.alt
    (.seq (op ["::"]) (.alt (.word "new") name)) (.seq (.sign ".") (.word "class")))
  Rule.choice [literal, lambda, creation,
    .node "switch_expression" (Rule.sequence [.word "switch", condition, reads .switchBlock]),
    .node "method_reference" ofType,
    .node "method_invocation" (.seq (.alt name (.seq (Rule.opt (reads .typeArguments))
      (Rule.words ["this", "super"]))) (reads .arguments)),
    name, .node "this" (.word "this"), .node "super" (.word "super"), condition]

def postfixedRule : Rule Name :=
  .chain (reads .primary) (Rule.choice [
    .wrap "method_invocation" "object" (Rule.sequence [.sign ".",
      Rule.opt (reads .typeArguments), .alt name (.word "super"), reads .arguments]),
    .wrap "object_creation_expression" "outer" (.seq (.sign ".") creation),
    .wrap "template_expression" "template_processor" (.seq (.sign ".")
      (.leaf "string_literal" stringScan)),
    .wrap "field_access" "object" (.seq (.sign ".")
      (.alt name (Rule.words ["this", "super", "class"]))),
    .wrap "array_access" "array" (Rule.sequence [.sign "[", reads .expression, .sign "]"]),
    .wrap "method_reference" "object" (Rule.sequence [op ["::"],
      Rule.opt (reads .typeArguments), .alt (.word "new") name])])

def assigned : Rule Name :=
  let marks := ["=", "+=", "-=", "*=", "/=", "&=", "|=", "^=", "%=", "<<=", ">>=", ">>>="]
  .chain (reads .postfixed) (Rule.choice [
    .wrap "assignment_expression" "left" (.seq (op marks) (.field "right" (reads .expression))),
    .wrap "update_expression" "argument" (op ["++", "--"])])

def unaryRule : Rule Name :=
  let primitive := .node "type" (.seq (Rule.words primitiveWords) (Rule.opt dimensions))
  let bounded := Rule.separated (op ["&"]) (reads .type)
  Rule.choice [
    .node "cast_expression" (Rule.sequence [.sign "(", primitive, .sign ")", reads .unary]),
    lambda,
    .node "cast_expression" (Rule.sequence [.sign "(", bounded, .sign ")",
      .notAhead (Rule.signs ["+", "-"]), reads .unary]),
    .node "update_expression" (.seq (op ["++", "--"]) (reads .unary)),
    .node "unary_expression" (.seq (op ["+", "-", "!", "~"]) (reads .unary)), assigned]

def levels : List (List String) :=
  [["||"], ["&&"], ["|"], ["^"], ["&"], ["==", "!="], ["<", "<=", ">", ">="],
    ["<<", ">>", ">>>"], ["+", "-"], ["*", "/", "%"]]

def binaryRule (level : Nat) : Rule Name :=
  match level with
  | 0 => .chain (reads (.binary 1)) (.wrap "ternary_expression" "condition"
      (Rule.sequence [op ["?"], reads .expression, op [":"],
        .alt lambda (reads (.binary 0))]))
  | level + 1 =>
    match levels[level]? with
    | none => reads .unary
    | some signs =>
      let next := reads (.binary (level + 2))
      let grows := .wrap "binary_expression" "left"
        (.seq (.field "operator" (op signs)) (.field "right" next))
      if signs.contains "<" then
        .chain next (.alt grows (.wrap "instanceof_expression" "left"
          (Rule.sequence [.word "instanceof", Rule.opt (.word "final"),
            .alt (reads .pattern) (reads .type)])))
      else .chain next grows

def rules : Name → Rule Name
  | .statement => statementRule
  | .block => .node "block" (braces (.many (reads .statement)))
  | .expression => reads (.binary 0)
  | .binary level => binaryRule level
  | .unary => unaryRule
  | .postfixed => postfixedRule
  | .primary => primaryRule
  | .arguments => .node "argument_list" (parens expressions)
  | .type => typeRule
  | .typeArguments => typeArgumentsRule
  | .marker => markerRule
  | .classMember => classMemberRule
  | .interfaceMember => interfaceMemberRule
  | .arrayInitializer => arrayInitializerRule
  | .parameters => parametersRule
  | .declaration => declarationRule
  | .pattern => patternRule
  | .switchBlock => switchBlockRule
  | .elementValue => elementValueRule

def grammar : Syntax.Grammar Name where
  rule := rules
  isWordChar := isNameChar
  between := fun _ =>
    Scan.between [("line_comment", Scan.slashComment), ("block_comment", Scan.blockComment)]

def read? (text : List Char) : Option Node :=
  grammar.read? "program" (.many (.alt (reads .statement) method)) text

end CodeOutline.Grammar.Java
