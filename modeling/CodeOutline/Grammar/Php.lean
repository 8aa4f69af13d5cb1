import CodeOutline.Grammar.Php.Token

/-!
The grammar of PHP documents.
-/

set_option autoImplicit false

namespace CodeOutline.Grammar.Php

open Syntax

inductive Name
  | statement | expression
  /-- Operators from the given level of binding strength on. -/
  | binary (level : Nat)
  | unary | postfixed | primary | arguments | array | type | parameters | body | attributes
  | member | closure | created

def reads : Name → Rule Name := .call

def operators : List String :=
  ["=", "==", "===", "=>", "!", "!=", "!==", "<>", "<", "<=", "<=>", "<<", "<<=", "<<<", ">",
    ">=", ">>", ">>=", "+", "++", "+=", "-", "--", "-=", "->", ".", "...", ".=", "*", "**",
    "*=", "**=", "/", "/=", "%", "%=", "&", "&&", "&=", "|", "||", "|=", "^", "^=", "?", "??",
    "??=", "?->", "~", "@", ":", "::"]

def op (wanted : List String) : Rule Name := .longest operators wanted

def name : Rule Name := .leaf "name" nameScan

def path : Rule Name :=
  .alt (.leaf "qualified_name" qualifiedScan) (.leaf "name" freeNameScan)

def className : Rule Name :=
  .alt (.leaf "qualified_name" qualifiedScan) (.leaf "name" nameScan)

def variableName : Rule Name := .leaf "variable_name" variableScan

def semicolon : Rule Name :=
  .alt (.sign ";") (.test (fun before after =>
    let passed := before.rest.take (after.place.offset - before.place.offset)
    (Text.cutFirst? ['?', '>'] passed).isSome))

def parens (a : Rule Name) : Rule Name := Rule.sequence [.sign "(", a, .sign ")"]

def braces (a : Rule Name) : Rule Name := Rule.sequence [.sign "\x7b", a, .sign "\x7d"]

def condition : Rule Name := .node "parenthesized_expression" (parens (reads .expression))

def attributes : Rule Name := Rule.opt (reads .attributes)

def statements : Rule Name := .many (reads .statement)

def colonBlock (closing : String) (a : Rule Name) : Rule Name :=
  Rule.sequence [op [":"], a, .word closing, semicolon]

def reference : Rule Name := Rule.opt (.node "reference_modifier" (op ["&"]))

def returnType : Rule Name :=
  Rule.opt (.seq (op [":"]) (.field "return_type" (reads .type)))

def names : Rule Name := Rule.commas className

def implemented : Rule Name :=
  Rule.opt (.node "class_interface_clause" (.seq (.word "implements") names))

def extended : Rule Name :=
  Rule.opt (.node "base_clause" (.seq (.word "extends") names))

def members : Rule Name :=
  .field "body" (.node "declaration_list" (braces (.many (reads .member))))

def modifiers (ws : List String) : Rule Name :=
  .many (.node "modifier" (Rule.words ws))

def visibility : Rule Name :=
  .seq (Rule.words ["public", "protected", "private"]) (Rule.opt (parens (.word "set")))

def memberModifier : Rule Name :=
  .node "modifier" (.alt visibility
    (Rule.words ["static", "abstract", "final", "readonly", "var"]))

def memberModifiers : Rule Name := .many memberModifier

def constElements : Rule Name :=
  Rule.commas (.node "const_element" (Rule.sequence [name, op ["="], reads .expression]))

def constDeclaration : Rule Name :=
  .node "const_declaration" (Rule.sequence [attributes, memberModifiers, .word "const",
    .alt constElements (.seq (.field "type" (reads .type)) constElements), semicolon])

def enumDeclaration : Rule Name :=
  .node "enum_declaration" (Rule.sequence [attributes, .word "enum", .field "name" name,
    Rule.opt (.seq (op [":"]) (reads .type)), implemented, members])

def classDeclaration : Rule Name :=
  .node "class_declaration" (Rule.sequence [attributes,
    modifiers ["final", "abstract", "readonly"], .word "class", .field "name" name, extended,
    implemented, members])

def callable (kind : String) (lead ending : Rule Name) : Rule Name :=
  .node kind (Rule.sequence [attributes, lead, .word "function", reference,
    .field "name" name, .field "parameters" (reads .parameters), returnType, ending])

def ended (a : Rule Name) : Rule Name := .alt a semicolon

def useClause (kinds : Rule Name) : Rule Name :=
  .node "namespace_use_clause" (Rule.sequence [kinds, className,
    Rule.opt (.seq (.word "as") name)])

def useKind : Rule Name :=
  Rule.opt (.seq (Rule.words ["function", "const"]) (.ahead (.alt className (.sign "\\"))))

def useGroup : Rule Name :=
  Rule.sequence [Rule.opt (.sign "\\"), .leaf "namespace_name" pathScan, .sign "\\",
    .node "namespace_use_group" (braces (Rule.commasEnd (useClause useKind)))]

def foreachHead : Rule Name :=
  let target := .seq reference (reads .postfixed)
  parens (Rule.sequence [reads .expression, .word "as", target,
    Rule.opt (.seq (op ["=>"]) target)])

def caseBlock : Rule Name :=
  .many (.seq (.alt (.seq (.word "case") (reads .expression)) (.word "default"))
    (.seq (.alt (op [":"]) (.sign ";")) statements))

def expressions : Rule Name := Rule.commas0 (reads .expression)

def bodyOrColon (closing : String) : Rule Name :=
  .alt (colonBlock closing statements) (reads .statement)

def ifStatement : Rule Name :=
  let colonForm := Rule.sequence [op [":"], statements,
    .many (Rule.sequence [.word "elseif", condition, op [":"], statements]),
    Rule.opt (Rule.sequence [.word "else", op [":"], statements]), .word "endif", semicolon]
  let plainForm := Rule.sequence [reads .statement,
    .many (Rule.sequence [.alt (.word "elseif") (.seq (.word "else") (.word "if")), condition,
      reads .statement]),
    Rule.opt (.seq (.word "else") (reads .statement))]
  .node "if_statement" (Rule.sequence [.word "if", condition, .alt colonForm plainForm])

def statementRule : Rule Name :=
  Rule.choice [
    .node "compound_statement" (braces statements),
    .node "namespace_definition" (Rule.sequence [.word "namespace",
      .alt (.seq (.field "name" (.leaf "namespace_name" pathScan)) semicolon)
        (.seq (Rule.opt (.field "name" (.leaf "namespace_name" pathScan)))
          (.field "body" (reads .body)))]),
    .node "namespace_use_declaration" (Rule.sequence [.word "use", useKind,
      .alt useGroup (Rule.commas (useClause .done)), semicolon]),
    .node "declare_statement" (Rule.sequence [.word "declare",
      parens (.node "declare_directive" (Rule.sequence [name, op ["="], reads .expression])),
      Rule.choice [semicolon, colonBlock "enddeclare" statements, reads .statement]]),
    classDeclaration, enumDeclaration,
    .node "interface_declaration" (Rule.sequence [attributes, .word "interface",
      .field "name" name, extended, members]),
    .node "trait_declaration" (Rule.sequence [attributes, .word "trait", .field "name" name,
      members]),
    callable "function_definition" .done (.field "body" (reads .body)),
    .node "const_declaration" (Rule.sequence [.word "const", constElements, semicolon]),
    ifStatement,
    .node "while_statement" (Rule.sequence [.word "while", condition, bodyOrColon "endwhile"]),
    .node "do_statement" (Rule.sequence [.word "do", reads .statement, .word "while", condition,
      semicolon]),
    .node "for_statement" (Rule.sequence [.word "for", parens (Rule.sequence [expressions,
      .sign ";", expressions, .sign ";", expressions]), bodyOrColon "endfor"]),
    .node "foreach_statement" (Rule.sequence [.word "foreach", foreachHead,
      bodyOrColon "endforeach"]),
    .node "switch_statement" (Rule.sequence [.word "switch", condition,
      .alt (braces (.seq (Rule.opt (.sign ";")) caseBlock)) (colonBlock "endswitch" caseBlock)]),
    .node "try_statement" (Rule.sequence [.word "try", reads .body,
      .many (Rule.sequence [.word "catch", parens (.seq (reads .type) (Rule.opt variableName)),
        reads .body]),
      Rule.opt (.seq (.word "finally") (reads .body))]),
    .node "goto_statement" (Rule.sequence [.word "goto", name, semicolon]),
    .node "return_statement" (Rule.sequence [.word "return", Rule.opt (reads .expression),
      semicolon]),
    .node "jump_statement" (Rule.sequence [Rule.words ["break", "continue"],
      Rule.opt (reads .expression), semicolon]),
    .node "echo_statement" (Rule.sequence [.word "echo", Rule.commas (reads .expression),
      semicolon]),
    .node "unset_statement" (Rule.sequence [.word "unset",
      parens (Rule.commasEnd (reads .expression)), semicolon]),
    .node "global_declaration" (Rule.sequence [.word "global", Rule.commas (reads .postfixed),
      semicolon]),
    .node "function_static_declaration" (Rule.sequence [.word "static",
      Rule.commas (.seq variableName (Rule.opt (.seq (op ["="]) (reads .expression)))),
      semicolon]),
    .node "empty_statement" (.sign ";"),
    .node "named_label_statement" (.seq (.leaf "name" freeNameScan)
      (.seq (op [":"]) .done)),
    .node "expression_statement" (.seq (reads .expression) semicolon)]

def memberRule : Rule Name :=
  Rule.choice [
    .node "use_declaration" (Rule.sequence [.word "use", names,
      ended (.node "use_list" (braces (.many (Rule.sequence [className,
        Rule.opt (.seq (op ["::"]) name),
        .alt (.seq (.word "insteadof") names)
          (Rule.sequence [.word "as", .alt
            (.seq (Rule.words ["public", "protected", "private"]) (Rule.opt name)) name]),
        semicolon]))))]),
    .node "enum_case" (Rule.sequence [attributes, .word "case", .field "name" name,
      Rule.opt (.seq (op ["="]) (reads .expression)), semicolon]),
    constDeclaration,
    callable "method_declaration" memberModifiers (ended (.field "body" (reads .body))),
    .node "property_declaration" (Rule.sequence [attributes,
      Rule.many1 memberModifier, Rule.opt (.field "type" (reads .type)),
      Rule.commas (.node "property_element" (.seq variableName
        (Rule.opt (.seq (op ["="]) (.field "default_value" (reads .expression)))))),
      ended (.node "property_hook_list" (braces (.many (Rule.sequence [attributes,
        modifiers ["final"], reference, name, Rule.opt (reads .parameters),
        Rule.choice [.seq (op ["=>"]) (.seq (reads .expression) semicolon), reads .body,
          semicolon]]))))])]

def typeRule : Rule Name :=
  let joint := .alt (op ["|"]) (.seq (op ["&"])
    (.notAhead (Rule.choice [.sign "$", .sign "...", .sign "&"])))
  let one := Rule.choice [.seq (op ["?"]) className, className, parens (reads .type)]
  .node "type" (Rule.separated joint one)

def defaultValue : Rule Name :=
  Rule.opt (.seq (op ["="]) (.field "default_value" (reads .expression)))

def typed : Rule Name := Rule.opt (.field "type" (reads .type))

def promotion : Rule Name :=
  .node "modifier" (.alt visibility (Rule.words ["readonly", "final"]))

def parameter : Rule Name :=
  Rule.choice [
    .node "property_promotion_parameter" (Rule.sequence [attributes,
      Rule.many1 promotion, typed,
      .field "name" (.alt (.node "by_ref" (.seq (op ["&"]) variableName)) variableName),
      defaultValue,
      Rule.opt (.node "property_hook_list" (braces (.many (reads .member))))]),
    .node "variadic_parameter" (Rule.sequence [attributes, typed, reference, op ["..."],
      .field "name" variableName]),
    .node "simple_parameter" (Rule.sequence [attributes, typed, reference,
      .field "name" variableName, defaultValue])]

def parametersRule : Rule Name :=
  .node "formal_parameters" (parens (Rule.opt (Rule.commasEnd parameter)))

def argumentsRule : Rule Name :=
  let unpacked := .node "variadic_unpacking" (.seq (op ["..."]) (reads .expression))
  let argument := .node "argument" (Rule.sequence [
    Rule.opt (Rule.sequence [.field "name" name, op [":"]]), reference,
    .alt unpacked (reads .expression)])
  .node "arguments" (parens (.alt
    (.seq (.node "variadic_placeholder" (op ["..."])) (.ahead (.sign ")")))
    (Rule.opt (Rule.commasEnd argument))))

def arrayItems : Rule Name :=
  let value := .alt (.node "by_ref" (.seq (op ["&"]) (reads .expression))) (reads .expression)
  let element := .node "array_element_initializer" (Rule.choice [
    .node "variadic_unpacking" (.seq (op ["..."]) (reads .expression)),
    .seq value (Rule.opt (.seq (op ["=>"]) value))])
  .seq (Rule.opt element) (.many (.seq (.sign ",") (Rule.opt element)))

def arrayRule : Rule Name :=
  .alt (.node "array_creation_expression" (Rule.sequence [.sign "[", arrayItems, .sign "]"]))
    (.node "array_creation_expression" (.seq (Rule.words ["array", "list"]) (parens arrayItems)))

def closureRule : Rule Name :=
  let uses := Rule.opt (.node "anonymous_function_use_clause" (.seq (.word "use")
    (parens (Rule.opt (Rule.commasEnd (.seq reference variableName))))))
  let isStatic := Rule.opt (.word "static")
  .alt
    (.node "anonymous_function" (Rule.sequence [attributes, isStatic, .word "function",
      reference, reads .parameters, uses, returnType, reads .body]))
    (.node "arrow_function" (Rule.sequence [attributes, isStatic, .word "fn", reference,
      reads .parameters, returnType, op ["=>"], reads .expression]))

def createdRule : Rule Name :=
  let anonymous := .node "anonymous_class" (Rule.sequence [attributes,
    modifiers ["readonly", "final"], .word "class", Rule.opt (reads .arguments), extended,
    implemented, members])
  let access := Rule.choice [
    .wrap "member_access_expression" "object" (.seq (op ["->", "?->"])
      (.alt name variableName)),
    .wrap "scoped_property_access_expression" "scope" (.seq (op ["::"]) variableName),
    .wrap "subscript_expression" "object" (Rule.sequence [.sign "[", reads .expression,
      .sign "]"])]
  let dynamic := .chain (.alt variableName condition) access
  .node "object_creation_expression" (.seq (.word "new")
    (.alt anonymous (.seq (.alt className dynamic) (Rule.opt (reads .arguments)))))

def matchRule : Rule Name :=
  let arm := .seq (.alt (.seq (.word "default") (Rule.opt (.sign ",")))
    (Rule.commasEnd (reads .expression))) (.seq (op ["=>"]) (reads .expression))
  .node "match_expression" (Rule.sequence [.word "match", condition,
    .node "match_block" (braces (Rule.opt (Rule.commasEnd arm)))])

def lead (kind word : String) (rest : Rule Name) : Rule Name :=
  .node kind (.seq (.word word) rest)

def literal : Rule Name :=
  Rule.choice [.leaf "float" floatScan, .leaf "integer" integerScan,
    .leaf "string" (Scan.seq (Scan.opt (Scan.one (fun c => c == 'b' || c == 'B')))
      (protectedScan '\'')),
    .leaf "encapsed_string" (Scan.seq (Scan.opt (Scan.one (fun c => c == 'b' || c == 'B')))
      doubleQuotedScan),
    .leaf "nowdoc" (linesScan true), .leaf "heredoc" (linesScan false),
    .leaf "shell_command_expression" (protectedScan '`'),
    .node "boolean" (Rule.words ["true", "false"]), .node "null" (.word "null")]

def primaryRule : Rule Name :=
  Rule.choice [
    literal,
    .seq (.leaf "relative_scope" (Scan.such (fun cs =>
        ["self", "parent", "static"].contains (Text.lowerAscii (String.ofList cs))) nameScan))
      (.ahead (op ["::"])),
    variableName,
    .node "dynamic_variable_name" (.seq (.sign "$")
      (.alt (reads .primary) (braces (reads .expression)))),
    reads .array, reads .created, reads .closure, matchRule, condition,
    lead "clone_expression" "clone" (reads .unary),
    lead "print_intrinsic" "print" (reads .expression),
    .node "yield_expression" (.seq (.word "yield") (Rule.opt (.alt
      (.seq (.word "from") (reads .expression))
      (.seq (reads .expression) (Rule.opt (.seq (op ["=>"]) (reads .expression))))))),
    lead "throw_expression" "throw" (reads .expression),
    lead "include_once_expression" "include_once" (reads .expression),
    lead "include_expression" "include" (reads .expression),
    lead "require_once_expression" "require_once" (reads .expression),
    lead "require_expression" "require" (reads .expression),
    path]

def postfixedRule : Rule Name :=
  let memberName := Rule.choice [name, variableName, braces (reads .expression),
    .node "dynamic_variable_name" (.seq (.sign "$") (reads .primary))]
  let arrow := .seq (op ["->", "?->"]) (.field "name" memberName)
  .chain (reads .primary) (Rule.choice [
    .wrap "subscript_expression" "object" (Rule.sequence [.sign "[",
      Rule.opt (reads .expression), .sign "]"]),
    .wrap "member_call_expression" "object" (.seq arrow (reads .arguments)),
    .wrap "member_access_expression" "object" arrow,
    .wrap "scoped_call_expression" "scope" (Rule.sequence [op ["::"], .field "name" memberName,
      reads .arguments]),
    .wrap "scoped_property_access_expression" "scope" (.seq (op ["::"])
      (.alt variableName (.node "dynamic_variable_name" (.seq (.sign "$") (reads .primary))))),
    .wrap "class_constant_access_expression" "class" (.seq (op ["::"])
      (.alt name (braces (reads .expression)))),
    .wrap "function_call_expression" "function" (reads .arguments)])

def assigned : Rule Name :=
  let target := reads .postfixed
  let augmented := ["+=", "-=", "*=", "/=", "%=", ".=", "**=", "&=", "|=", "^=", "<<=", ">>=",
    "??="]
  .chain target (Rule.choice [
    .wrap "reference_assignment_expression" "left" (Rule.sequence [op ["="], op ["&"],
      .field "right" (reads .expression)]),
    .wrap "assignment_expression" "left" (.seq (op ["="]) (.field "right" (reads .expression))),
    .wrap "augmented_assignment_expression" "left" (.seq (.field "operator" (op augmented))
      (.field "right" (reads .expression))),
    .wrap "update_expression" "argument" (op ["++", "--"])])

def castScan : Scan :=
  let types := ["array", "binary", "bool", "boolean", "double", "int", "integer", "float",
    "object", "real", "string", "unset"]
  let gap := Scan.run (fun c => c == ' ' || c == '\t')
  Scan.such (fun cs =>
      types.contains (Text.lowerAscii (Text.trim (String.ofList (cs.drop 1).dropLast))))
    (Scan.all [Scan.text "(", gap, Scan.run1 Char.isAlpha, gap, Scan.text ")"])

def unaryRule : Rule Name :=
  Rule.choice [
    .node "cast_expression" (.seq (.leaf "cast_type" castScan) (reads .unary)),
    .node "update_expression" (.seq (op ["++", "--"]) (reads .unary)),
    .node "unary_op_expression" (.seq (op ["!", "~", "+", "-"]) (reads .unary)),
    .node "error_suppression_expression" (.seq (op ["@"]) (reads .unary)),
    .chain assigned (.wrap "binary_expression" "left" (.seq
      (.field "operator" (.word "instanceof")) (.field "right" (reads .postfixed))))]

def levels : List (Rule Name) :=
  [.word "or", .word "xor", .word "and", .never, .never, op ["||"], op ["&&"], op ["|"],
    op ["^"], op ["&"], op ["==", "!=", "<>", "===", "!==", "<=>"], op ["<", "<=", ">", ">="],
    op ["."], op ["<<", ">>"], op ["+", "-"], op ["*", "/", "%"]]

def binaryRule (level : Nat) : Rule Name :=
  let next := reads (.binary (level + 1))
  let grows (operator right : Rule Name) : Rule Name :=
    .chain next (.wrap "binary_expression" "left"
      (.seq (.field "operator" operator) (.field "right" right)))
  if level = 3 then
    .chain next (.wrap "conditional_expression" "condition" (Rule.sequence [op ["?"],
      Rule.opt (.field "body" (reads .expression)), op [":"], .field "alternative" next]))
  else if level = 4 then grows (op ["??"]) (reads (.binary 4))
  else match levels[level]? with
    | some operator => grows operator next
    | none =>
      .chain (reads .unary) (.wrap "binary_expression" "left"
        (.seq (.field "operator" (op ["**"])) (.field "right" (reads (.binary level)))))

def rules : Name → Rule Name
  | .statement => statementRule
  | .expression => reads (.binary 0)
  | .binary level => binaryRule level
  | .unary => unaryRule
  | .postfixed => postfixedRule
  | .primary => primaryRule
  | .arguments => argumentsRule
  | .array => arrayRule
  | .type => typeRule
  | .parameters => parametersRule
  | .body => .node "compound_statement" (braces statements)
  | .attributes => .node "attribute_list" (Rule.many1 (Rule.sequence [.sign "#[",
      Rule.commasEnd (.node "attribute" (.seq className (Rule.opt (reads .arguments)))),
      .sign "]"]))
  | .member => memberRule
  | .closure => closureRule
  | .created => createdRule

def grammar : Syntax.Grammar Name where
  rule := rules
  isWordChar := isNameChar
  foldsCase := true
  between := fun _ => between

/-- The tree of a document, nothing when its code is not well formed. Text before the first
piece of code is passed over. -/
def read? (text : List Char) : Option Node :=
  let lead : Rule Name := .move (fun before _ => some (before.skip (textLength before.rest)))
  grammar.read? "program"
    (.seq lead (Rule.opt (.seq (.leaf "php_tag" tagScan) statements))) text

end CodeOutline.Grammar.Php
