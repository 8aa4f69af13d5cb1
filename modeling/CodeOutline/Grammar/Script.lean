import CodeOutline.Grammar.Script.Token

/-!
The grammar of scripts in three dialects: with types, with types and markup, with markup
alone. Scripts are read while they are edited, so where no statement fits, a single token is
passed over.
-/

set_option autoImplicit false

namespace CodeOutline.Grammar.Script

open Syntax

structure Dialect where
  isTyped : Bool
  hasMarkup : Bool
deriving DecidableEq, Repr

private inductive Name
  | statement | block | declaration | expression | list | unary | postfixed | primary
  | arguments | pattern | parameters | classMember | type | operandType | typeArguments
  | typeParameters | objectType | signature | markup

private def reads : Name → Rule Name := .call

private def operators : List String :=
  ["=", "==", "===", "=>", "!", "!=", "!==", "<", "<=", "<<", "<<=", ">", ">=", ">>", ">>=",
    ">>>", ">>>=", "+", "++", "+=", "-", "--", "-=", "*", "**", "*=", "**=", "/", "/=", "%",
    "%=", "&", "&&", "&=", "&&=", "|", "||", "|=", "||=", "^", "^=", "?", "?.", "??", "??=", "~",
    ":", ".", "..."]

private def op (wanted : List String) : Rule Name := .longest operators wanted

private def name : Rule Name := .leaf "identifier" nameScan

private def anyWord : Rule Name := .leaf "property_identifier" wordScan

private def string : Rule Name := .leaf "string" stringScan

private def parens (a : Rule Name) : Rule Name := Rule.sequence [.sign "(", a, .sign ")"]

private def brackets (a : Rule Name) : Rule Name := Rule.sequence [.sign "[", a, .sign "]"]

private def braces (a : Rule Name) : Rule Name := Rule.sequence [.sign "\x7b", a, .sign "\x7d"]

private def items (a : Rule Name) : Rule Name := .many (.alt (.sign ",") a)

private def implied : Rule Name :=
  .test (fun before after =>
    before.place.line != after.place.line || after.rest.isEmpty ||
      after.rest.head? == some '\x7d')

private def semicolon : Rule Name := .alt (.sign ";") implied

private def memberEnd : Rule Name := .alt (Rule.signs [";", ","]) implied

private def condition : Rule Name := .node "parenthesized_expression" (parens (reads .list))

private def propertyName : Rule Name :=
  Rule.choice [anyWord, .leaf "private_property_identifier" privateNameScan, string,
    .leaf "number" numberScan, .node "computed_property_name" (brackets (reads .expression))]

private def modifiers (ws : List String) : Rule Name :=
  .many (.seq (.node "modifier" (Rule.words ws)) (.ahead (.alt propertyName (.sign "*"))))

private def typeNote : Rule Name :=
  .field "type" (.node "type_annotation" (.seq (op [":"]) (reads .type)))

private def initial : Rule Name := .seq (op ["="]) (.field "value" (reads .expression))

private def typeParameters : Rule Name := Rule.opt (reads .typeParameters)

private def returned : Rule Name :=
  let subject := .alt name (.word "this")
  Rule.choice [
    Rule.sequence [.word "asserts", Rule.sameLine, subject,
      Rule.opt (.seq (.word "is") (reads .type))],
    Rule.sequence [subject, .word "is", reads .type], reads .type]

private def signatureRule (d : Dialect) : Rule Name :=
  let typed := .field "return_type" (.node "type_annotation" (.seq (op [":"]) returned))
  Rule.sequence [typeParameters, .field "parameters" (reads .parameters),
    if d.isTyped then Rule.opt typed else .done]

private def signature : Rule Name := reads .signature

private def body : Rule Name := .field "body" (reads .block)

private def decorator : Rule Name :=
  let target := .chain name (.alt
    (.wrap "member_expression" "object" (.seq (.sign ".") anyWord))
    (.wrap "call_expression" "function" (reads .arguments)))
  .node "decorator" (.seq (.sign "@") (.alt condition target))

private def decorators : Rule Name := .many decorator

/-! Patterns and parameters -/

private def default : Rule Name := Rule.opt (.seq (op ["="]) (reads .expression))

private def patternRule : Rule Name :=
  let member := Rule.choice [
    .seq (op ["..."]) (reads .pattern),
    Rule.sequence [propertyName, op [":"], reads .pattern, default], .seq name default]
  Rule.choice [name, .node "object_pattern" (braces (items member)),
    .node "array_pattern" (brackets (items (.seq (reads .pattern) default))),
    .node "rest_pattern" (.seq (op ["..."]) (reads .pattern))]

private def typedParameter : Rule Name :=
  let words := .many (.seq
    (.node "modifier" (Rule.words ["public", "private", "protected", "override", "readonly"]))
    (.ahead (reads .pattern)))
  let head := Rule.sequence [decorators, words,
    .field "pattern" (.alt (reads .pattern) (.node "this" (.word "this")))]
  let rest := .seq (Rule.opt typeNote) (Rule.opt initial)
  .alt (.node "optional_parameter" (Rule.sequence [head, op ["?"], rest]))
    (.node "required_parameter" (.seq head rest))

private def plainParameter : Rule Name :=
  .alt (.node "assignment_pattern" (Rule.sequence [.field "left" (reads .pattern), op ["="],
    .field "right" (reads .expression)])) (reads .pattern)

private def parametersRule (d : Dialect) : Rule Name :=
  .node "formal_parameters" (parens (.seq
    (Rule.commas0 (if d.isTyped then typedParameter else plainParameter))
    (Rule.opt (.sign ","))))

/-! Types -/

private def typeParametersRule : Rule Name :=
  let parameter := Rule.sequence [
    .many (.seq (Rule.words ["const", "in", "out"]) (.ahead name)), name,
    Rule.opt (.seq (.word "extends") (reads .type)),
    Rule.opt (.seq (op ["="]) (reads .type))]
  .node "type_parameters" (Rule.sequence [.sign "<", Rule.commasEnd parameter, .sign ">"])

private def typeArgumentsRule : Rule Name :=
  .node "type_arguments" (Rule.sequence [.sign "<", Rule.commasEnd (reads .type), .sign ">"])

private def functionType : Rule Name :=
  Rule.sequence [Rule.opt (.seq (Rule.opt (.word "abstract")) (.word "new")), typeParameters,
    reads .parameters, op ["=>"], returned]

private def tupleType : Rule Name :=
  let named := Rule.sequence [name, Rule.opt (op ["?"]), op [":"], reads .type]
  let member := .seq (Rule.opt (op ["..."])) (.alt named
    (.seq (reads .type) (Rule.opt (op ["?"]))))
  .node "tuple_type" (brackets (items member))

private def namedType : Rule Name :=
  Rule.sequence [Rule.separated (.sign ".") (.alt name anyWord),
    Rule.opt (.seq Rule.sameLine (reads .typeArguments))]

private def primaryType : Rule Name :=
  let queried := .alt (Rule.sequence [.word "import", parens string,
    .many (.seq (.sign ".") anyWord)]) namedType
  Rule.choice [.node "parenthesized_type" (parens (reads .type)), reads .objectType, tupleType,
    .leaf "string" stringScan, .leaf "template_literal_type" templateScan,
    .node "literal_type" (.seq (Rule.opt (op ["-"])) (.leaf "number" numberScan)),
    .node "type_query" (.seq (.word "typeof") queried), .node "import_type" queried]

private def arrayType : Rule Name :=
  .chain primaryType (.seq Rule.sameLine (.alt
    (.wrap "array_type" "element" (.seq (.sign "[") (.sign "]")))
    (.wrap "lookup_type" "object" (brackets (reads .type)))))

private def operandTypeRule : Rule Name :=
  .alt (.node "function_type" functionType)
    (.alt
      (.node "type_operator" (Rule.sequence [
        Rule.words ["keyof", "unique", "readonly", "infer"], reads .operandType]))
      arrayType)

private def typeRule : Rule Name :=
  let joined := .node "type" (Rule.sequence [Rule.opt (op ["|", "&"]), reads .operandType,
    .many (.seq (op ["|", "&"]) (reads .operandType))])
  .chain joined (.wrap "conditional_type" "left" (Rule.sequence [.word "extends", joined,
    op ["?"], reads .type, op [":"], reads .type]))

private def memberWords : List String :=
  ["public", "private", "protected", "static", "override", "readonly", "declare", "abstract",
    "async", "accessor", "get", "set"]

private def indexSignature : Rule Name :=
  let ws := .many (Rule.words ["static", "readonly", "public", "private", "protected"])
  let inner := .seq name (.alt (.seq (op [":"]) (reads .type))
    (Rule.sequence [.word "in", reads .type, Rule.opt (.seq (.word "as") (reads .type))]))
  let sign := Rule.opt (op ["+", "-"])
  .node "index_signature" (Rule.sequence [
    Rule.opt (.seq sign ws), brackets inner, Rule.opt (.seq sign (op ["?"])),
    Rule.opt typeNote])

private def objectTypeRule : Rule Name :=
  let member := Rule.choice [
    indexSignature,
    .node "construct_signature" (Rule.sequence [Rule.opt (.word "abstract"), .word "new",
      signature]),
    .node "call_signature" signature,
    .node "method_signature" (Rule.sequence [modifiers memberWords, Rule.opt (.sign "*"),
      .field "name" propertyName, Rule.opt (op ["?"]), signature]),
    .node "property_signature" (Rule.sequence [modifiers memberWords,
      .field "name" propertyName, Rule.opt (op ["?"]), Rule.opt typeNote])]
  .node "object_type" (braces (.many (.alt (Rule.signs [";", ","]) (.seq member memberEnd))))

/-! Classes and functions -/

private def classHead : Rule Name :=
  let types := Rule.commas (reads .type)
  let extended := Rule.sequence [.word "extends", reads .postfixed,
    Rule.opt (reads .typeArguments)]
  Rule.opt (.node "class_heritage" (Rule.sequence [Rule.opt extended,
    Rule.opt (.seq (.word "implements") types)]))

private def classBody : Rule Name :=
  .field "body" (.node "class_body" (braces (.many (reads .classMember))))

private def passed : Rule Name :=
  .node "ERROR" (Rule.choice [.leaf "word" wordScan, string, .leaf "template" templateScan,
    .leaf "sign" (Scan.one (· != '\x7d'))])

private def classMemberRule : Rule Name :=
  let head := Rule.sequence [decorators, modifiers memberWords, Rule.opt (.sign "*"),
    .field "name" propertyName, Rule.opt (Rule.signs ["?", "!"])]
  Rule.choice [.sign ";",
    .node "class_static_block" (.seq (.word "static") body),
    .seq indexSignature memberEnd,
    .node "method_definition" (Rule.sequence [head, signature, body]),
    .seq (.node "method_signature" (.seq head signature)) memberEnd,
    .seq (.node "field_definition"
      (Rule.sequence [head, Rule.opt typeNote, Rule.opt initial])) memberEnd,
    passed]

private def classDeclaration : Rule Name :=
  let rest := Rule.sequence [.word "class", .field "name" name, typeParameters, classHead,
    classBody]
  .alt (.node "class_declaration" (.seq decorators rest))
    (.node "abstract_class_declaration" (Rule.sequence [decorators, .word "abstract", rest]))

private def functionHead : Rule Name :=
  Rule.sequence [Rule.opt (.seq (.word "async") Rule.sameLine), .word "function",
    Rule.opt (.sign "*")]

private def bindings (kind : String) (ws : List String) : Rule Name :=
  let target := .field "name" (reads .pattern)
  .node kind (Rule.sequence [Rule.words ws, Rule.commas (.node "variable_declarator"
    (Rule.sequence [target, Rule.opt (op ["!"]), Rule.opt typeNote, Rule.opt initial])),
    semicolon])

private def spacePath : Rule Name :=
  .node "nested_identifier" (Rule.separated (.sign ".") (.alt name anyWord))

private def space : Rule Name :=
  .node "internal_module" (Rule.sequence [.word "namespace", Rule.sameLine,
    .field "name" spacePath, body])

private def moduleDeclaration : Rule Name :=
  .node "module" (Rule.sequence [.word "module", Rule.sameLine,
    .field "name" (.alt string spacePath), .alt body semicolon])

private def typedDeclaration : Rule Name :=
  let member := .seq propertyName (Rule.opt initial)
  let types := Rule.commas (reads .type)
  Rule.choice [
    .node "interface_declaration" (Rule.sequence [.word "interface", .field "name" name,
      typeParameters, Rule.opt (.seq (.word "extends") types),
      .field "body" (reads .objectType)]),
    .node "enum_declaration" (Rule.sequence [Rule.opt (.word "const"), .word "enum",
      .field "name" name, braces (items member)]),
    .node "type_alias_declaration" (Rule.sequence [.word "type", .field "name" name,
      typeParameters, op ["="], reads .type, semicolon]), space, moduleDeclaration,
    .node "import_alias" (Rule.sequence [.word "import", name, op ["="],
      Rule.separated (.sign ".") name, semicolon])]

private def declarationRule (d : Dialect) : Rule Name :=
  let named := Rule.sequence [functionHead, .field "name" name, signature]
  Rule.choice [if d.isTyped then typedDeclaration else .never, classDeclaration,
    .node "function_declaration" (.seq named body),
    .node "function_signature" (.seq named semicolon),
    bindings "lexical_declaration" ["let", "const"], bindings "variable_declaration" ["var"]]

/-! Expressions -/

private def argumentsRule : Rule Name :=
  .node "arguments" (parens (items (.seq (Rule.opt (op ["..."])) (reads .expression))))

private def objectLiteral : Rule Name :=
  let method := Rule.sequence [modifiers ["get", "set", "async"], Rule.opt (.sign "*"),
    propertyName, signature, reads .block]
  let member := Rule.choice [.seq (op ["..."]) (reads .expression), method,
    Rule.sequence [propertyName, op [":"], reads .expression], .seq name default]
  .node "object" (braces (items member))

private def functionLiteral : Rule Name :=
  .node "function_expression" (Rule.sequence [functionHead, Rule.opt name, signature, body])

private def classLiteral : Rule Name :=
  .node "class" (Rule.sequence [decorators, .word "class", Rule.opt (.field "name" name),
    typeParameters, classHead, classBody])

private def newExpression : Rule Name :=
  let callee := .chain (reads .primary) (.alt
    (.wrap "member_expression" "object" (.seq (.sign ".")
      (.alt anyWord (.leaf "private_property_identifier" privateNameScan))))
    (.wrap "subscript_expression" "object" (brackets (reads .list))))
  let called := Rule.sequence [callee,
    Rule.opt (.seq (reads .typeArguments) (.ahead (.sign "("))), Rule.opt (reads .arguments)]
  .node "new_expression" (.seq (.word "new") (.alt
    (.seq (.sign ".") (.word "target")) called))

private def literal : Rule Name :=
  Rule.choice [.leaf "number" numberScan, string, .leaf "template_string" templateScan,
    .leaf "regex" regexScan, .node "this" (.word "this"), .node "super" (.word "super"),
    .node "true" (.word "true"), .node "false" (.word "false"), .node "null" (.word "null")]

private def primaryRule (d : Dialect) : Rule Name :=
  Rule.choice [literal, functionLiteral, classLiteral, newExpression,
    .node "parenthesized_expression" (parens (reads .list)), objectLiteral,
    .node "array" (brackets (items (.seq (Rule.opt (op ["..."])) (reads .expression)))),
    .node "import" (.word "import"), .leaf "private_property_identifier" privateNameScan,
    if d.hasMarkup then reads .markup else .never, name]

private def postfixedRule (d : Dialect) : Rule Name :=
  let member := .alt anyWord (.leaf "private_property_identifier" privateNameScan)
  let called := .alt (reads .arguments) (.leaf "template_string" templateScan)
  .chain (reads .primary) (Rule.choice [
    .wrap "member_expression" "object" (.seq (op ["."]) member),
    .wrap "optional_chain" "object" (.seq (op ["?."]) (Rule.choice [member, called,
      brackets (reads .list)])),
    .wrap "subscript_expression" "object" (brackets (reads .list)),
    .wrap "call_expression" "function" called,
    if d.isTyped then .wrap "call_expression" "function" (.seq (reads .typeArguments) called)
    else .never,
    if d.isTyped then .wrap "instantiation_expression" "function" (.seq (reads .typeArguments)
      (.ahead (Rule.signs [";", ",", ")", "]", "\x7d", ":"])))
    else .never,
    if d.isTyped then .wrap "non_null_expression" "object" (.seq Rule.sameLine (op ["!"]))
    else .never])

private def unaryRule (d : Dialect) : Rule Name :=
  let prefixed := .seq (.alt (op ["!", "~", "+", "-", "++", "--"])
    (Rule.words ["typeof", "void", "delete", "await"])) (reads .unary)
  let asserted := Rule.sequence [.sign "<", reads .type, .sign ">", reads .unary]
  Rule.choice [.node "unary_expression" prefixed,
    if d.isTyped && !d.hasMarkup then .node "type_assertion" asserted else .never,
    .chain (reads .postfixed) (.wrap "update_expression" "argument"
      (.seq Rule.sameLine (op ["++", "--"])))]

private def binary (d : Dialect) : Rule Name :=
  let signs := ["??", "||", "&&", "|", "^", "&", "==", "!=", "===", "!==", "<", "<=", ">", ">=",
    "<<", ">>", ">>>", "+", "-", "*", "/", "%", "**"]
  let typed := .wrap "as_expression" "left" (.seq (Rule.words ["as", "satisfies"])
    (.alt (.word "const") (reads .type)))
  .chain (reads .unary) (Rule.choice [
    .wrap "binary_expression" "left" (.seq (op signs) (reads .unary)),
    .wrap "binary_expression" "left" (.seq (Rule.words ["in", "instanceof"]) (reads .unary)),
    if d.isTyped then typed else .never])

private def arrow : Rule Name :=
  let head := .alt (.field "parameter" name) signature
  let rest := Rule.sequence [head, op ["=>"], .alt body (.field "body" (reads .expression))]
  .node "arrow_function" (.alt (Rule.sequence [.word "async", Rule.sameLine, rest]) rest)

private def expressionRule (d : Dialect) : Rule Name :=
  let marks := ["=", "+=", "-=", "*=", "/=", "%=", "**=", "<<=", ">>=", ">>>=", "&=", "|=", "^=",
    "&&=", "||=", "??="]
  let given := .node "yield_expression" (.seq (.word "yield") (.alt
    (Rule.sequence [Rule.sameLine, Rule.opt (.sign "*"), reads .expression])
    (.notAhead (op marks))))
  let branch (a : Rule Name) := .wrap "ternary_expression" "condition"
    (Rule.sequence [op ["?"], a, op [":"], reads .expression])
  Rule.choice [arrow, given,
    .chain (binary d) (Rule.choice [branch (reads .expression), branch (binary d),
      .wrap "assignment_expression" "left" (.seq (op marks)
        (.field "right" (reads .expression)))])]

private def listRule : Rule Name :=
  .chain (reads .expression) (.wrap "sequence_expression" "left"
    (.seq (.sign ",") (reads .expression)))

private def markupRule : Rule Name :=
  let tag := .leaf "tag_name" tagNameScan
  let code := braces (Rule.opt (.seq (Rule.opt (op ["..."])) (reads .list)))
  let setting := .alt code (.seq tag (Rule.opt (.seq (op ["="])
    (Rule.choice [.leaf "attribute_value" attributeScan, code, reads .markup]))))
  let children := .many (Rule.choice [reads .markup, code, .leaf "text" markupTextScan])
  let closing (a : Rule Name) := Rule.sequence [.sign "<", .sign "/", a, .sign ">"]
  let opened := Rule.sequence [.sign ">", children, closing tag]
  .node "markup_element" (.seq (.sign "<") (.alt
    (Rule.sequence [.sign ">", children, closing .done])
    (Rule.sequence [tag, Rule.opt (reads .typeArguments), .many setting,
      .alt (.seq (.sign "/") (.sign ">")) opened])))

/-! Statements -/

private def moduleName : Rule Name := .alt anyWord string

private def specifier (kind : String) : Rule Name :=
  let plain := .seq (.field "name" moduleName) (Rule.opt (.seq (.word "as") moduleName))
  let marked := .seq (Rule.words ["type", "typeof"]) (.seq (.notAhead (.word "as")) plain)
  .node kind (.alt marked plain)

private def specifiers (kind item : String) : Rule Name :=
  .node kind (braces (items (specifier item)))

private def source : Rule Name :=
  let options := .seq (Rule.words ["with", "assert"]) objectLiteral
  .seq (.field "source" string) (Rule.opt options)

private def importStatement : Rule Name :=
  let many := .alt (.node "namespace_import" (Rule.sequence [.sign "*", .word "as", name]))
    (specifiers "named_imports" "import_specifier")
  let clause := .node "import_clause" (.alt many
    (.seq name (Rule.opt (.seq (.sign ",") many))))
  let required := .node "import_require_clause" (Rule.sequence [name, op ["="], .word "require",
    parens string])
  let rest := Rule.choice [Rule.sequence [clause, .word "from", source], required, source]
  .node "import_statement" (Rule.sequence [.word "import",
    .alt (.seq (Rule.words ["type", "typeof"]) rest) rest, semicolon])

private def exportStatement (d : Dialect) : Rule Name :=
  let sourced := .seq (.word "from") source
  let all := .node "namespace_export" (Rule.sequence [.sign "*", .word "as", moduleName])
  let named := .seq (specifiers "export_clause" "export_specifier") (Rule.opt sourced)
  let unmarked := Rule.choice [.seq all sourced, .seq (.sign "*") sourced, named]
  let declared := .field "declaration" (.alt (reads .declaration) (.node "ambient_declaration"
    (.seq (.word "declare") (reads .declaration))))
  let typed := Rule.choice [
    Rule.sequence [.word "type", unmarked, semicolon],
    Rule.sequence [op ["="], reads .expression, semicolon],
    Rule.sequence [.word "as", .word "namespace", name, semicolon]]
  .node "export_statement" (Rule.sequence [decorators, .word "export", Rule.choice [
    .seq unmarked semicolon,
    .seq (.word "default") (.alt declared (.seq (.field "value" (reads .expression)) semicolon)),
    if d.isTyped then typed else .never, declared]])

private def ambientDeclaration : Rule Name :=
  .node "ambient_declaration" (.seq (.word "declare") (.alt (reads .declaration)
    (.seq (.word "global") (reads .block))))

private def forStatement : Rule Name :=
  let each := Rule.sequence [Rule.opt (Rule.words ["var", "let", "const"]), reads .postfixed,
    Rule.words ["in", "of"], reads .list]
  let declared := .alt (bindings "lexical_declaration" ["let", "const"])
    (bindings "variable_declaration" ["var"])
  let stepped := Rule.sequence [.alt declared (.seq (Rule.opt (reads .list)) (.sign ";")),
    Rule.opt (reads .list), .sign ";", Rule.opt (reads .list)]
  .node "for_statement" (Rule.sequence [.word "for", Rule.opt (.word "await"),
    parens (.alt each stepped), reads .statement])

private def tryStatement : Rule Name :=
  let handler := Rule.sequence [.word "catch",
    Rule.opt (parens (.seq (reads .pattern) (Rule.opt typeNote))), reads .block]
  .node "try_statement" (Rule.sequence [.word "try", reads .block, Rule.opt handler,
    Rule.opt (.seq (.word "finally") (reads .block))])

private def switchStatement : Rule Name :=
  let head := .alt (.seq (.word "case") (reads .list)) (.word "default")
  .node "switch_statement" (Rule.sequence [.word "switch", condition,
    braces (.many (Rule.sequence [head, op [":"], .many
      (.seq (.notAhead (Rule.words ["case", "default"])) (reads .statement))]))])

private def jump : Rule Name :=
  let valued (w : String) := Rule.sequence [.word w,
    Rule.opt (.seq Rule.sameLine (reads .list)), semicolon]
  Rule.choice [.node "return_statement" (valued "return"), .node "throw_statement" (valued "throw"),
    .node "jump_statement" (Rule.sequence [Rule.words ["break", "continue", "debugger"],
      Rule.opt (.seq Rule.sameLine name), semicolon])]

private def statementRule (d : Dialect) : Rule Name :=
  Rule.choice [
    exportStatement d, importStatement, if d.isTyped then ambientDeclaration else .never,
    if d.isTyped then .node "expression_statement" space else .never,
    reads .declaration, reads .block, .node "empty_statement" (.sign ";"),
    .node "if_statement" (Rule.sequence [.word "if", condition, reads .statement,
      Rule.opt (.seq (.word "else") (reads .statement))]),
    forStatement,
    .node "while_statement" (Rule.sequence [.word "while", condition, reads .statement]),
    .node "do_statement" (Rule.sequence [.word "do", reads .statement, .word "while", condition,
      Rule.opt (.sign ";")]),
    tryStatement, switchStatement, jump,
    .node "with_statement" (Rule.sequence [.word "with", condition, reads .statement]),
    .node "labeled_statement" (Rule.sequence [name, op [":"], reads .statement]),
    .node "expression_statement" (.seq (reads .list) semicolon), passed]

private def rules (d : Dialect) : Name → Rule Name
  | .statement => statementRule d
  | .block => .node "statement_block" (braces (.many (reads .statement)))
  | .declaration => declarationRule d
  | .expression => expressionRule d
  | .list => listRule
  | .unary => unaryRule d
  | .postfixed => postfixedRule d
  | .primary => primaryRule d
  | .arguments => argumentsRule
  | .pattern => patternRule
  | .parameters => parametersRule d
  | .classMember => classMemberRule
  | .type => typeRule
  | .operandType => operandTypeRule
  | .typeArguments => typeArgumentsRule
  | .typeParameters => if d.isTyped then typeParametersRule else .never
  | .objectType => objectTypeRule
  | .signature => signatureRule d
  | .markup => markupRule

private def grammar (d : Dialect) : Syntax.Grammar Name where
  rule := rules d
  isWordChar := isNameChar
  between := fun _ => between

/-- The tree of a document. Passing over single tokens, the reading always comes to the
end, but for brackets nested beyond every measure. -/
def read? (d : Dialect) (text : List Char) : Option Node :=
  let bang := Rule.opt (.leaf "hash_bang_line" (Scan.seq (Scan.text "#!")
    (Scan.run Scan.notNewline)))
  let stray := .node "ERROR" (.sign "\x7d")
  (grammar d).read? "program" (.seq bang (.many (.alt (reads .statement) stray))) text

end CodeOutline.Grammar.Script
