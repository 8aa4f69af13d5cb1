import CodeOutline.Grammar.Cpp.Token

/-!
The grammar of C and C++ as far as declarations go: the bodies of functions and the values of
variables are only passed over, bracket by bracket. What cannot be read is passed over token
by token.
-/

set_option autoImplicit false

namespace CodeOutline.Grammar.Cpp

open Syntax

private inductive Name
  | item | member | type | specifiers | declarator | functional | parameters | group | value
  | templateArguments | path | templated (isMember : Bool)
  /-- The branches of a preprocessor condition behind the first. -/
  | branch (isMember : Bool)

private def reads : Name → Rule Name := .call

private def operators : List String :=
  ["=", "==", "!", "!=", "<", "<=", "<<", "<<=", "<=>", ">", ">=", "->", "->*", "+", "++", "+=",
    "-", "--", "-=", "*", "*=", "/", "/=", "%", "%=", "&", "&&", "&=", "|", "||", "|=", "^", "^=",
    "~", ":", "::", ".", "...", "()", "[]", ","]

private def op (wanted : List String) : Rule Name := .longest operators wanted

private def parens (a : Rule Name) : Rule Name := Rule.sequence [.sign "(", a, .sign ")"]

private def braces (a : Rule Name) : Rule Name := Rule.sequence [.sign "\x7b", a, .sign "\x7d"]

private def groups : Rule Name := .many (reads .group)

private def block : Rule Name := .node "compound_statement" (braces groups)

private def tokenBut (excluded : String) : Rule Name :=
  Rule.choice [.leaf "string" stringScan, .leaf "character" characterScan,
    .leaf "number" numberScan, .leaf "word" (Scan.run1 isNameChar),
    .leaf "sign" (Scan.one (fun c => !("()[]\x7b\x7d".toList ++ excluded.toList).contains c))]

private def upTo (excluded : String) : Rule Name :=
  .many (Rule.group (reads .group) (tokenBut excluded))

private def heading : Rule Name :=
  .many (Rule.choice [.node "group" (parens groups),
    .node "group" (Rule.sequence [.sign "[", groups, .sign "]"]), tokenBut ";"])

private def semicolon : Rule Name := .sign ";"

/-! Names -/

private def name (isPlus : Bool) : Rule Name := .leaf "identifier" (nameScan isPlus)

private def arguments (isPlus : Bool) : Rule Name :=
  if isPlus then Rule.opt (reads .templateArguments) else .done

private def pathRule (isPlus : Bool) : Rule Name :=
  let part := .seq (name isPlus) (arguments isPlus)
  .node "type_identifier" (if isPlus then
    .seq (Rule.opt (op ["::"])) (Rule.separated
      (.seq (op ["::"]) (Rule.opt (.word "template"))) part) else part)

private def operatorName : Rule Name :=
  let overloaded := ["+", "-", "*", "/", "%", "^", "&", "|", "~", "!", "=", "<", ">", "+=", "-=",
    "*=", "/=", "%=", "^=", "&=", "|=", "<<", "<<=", "==", "!=", "<=", ">=", "<=>", "&&", "||",
    "++", "--", ",", "->*", "->", "()", "[]"]
  let memory := .seq (Rule.words ["new", "delete"]) (Rule.opt (op ["[]"]))
  .node "operator_name" (.seq (.word "operator") (Rule.choice [
    Rule.signs [">>=", ">>"], op overloaded, .seq (.sign "(") (.sign ")"),
    .seq (.sign "[") (.sign "]"), memory, .seq (.leaf "string" stringScan) (name true)]))

private def declared (isPlus : Bool) : Rule Name :=
  if isPlus then
    let scope := .field "scope" (.node "scope" (.seq (name true) (arguments true)))
    let step := .seq (Rule.opt scope) (op ["::"])
    let last := Rule.choice [.node "destructor_name" (.seq (.sign "~") (name true)), operatorName,
      .chain (name true) (.wrap "template_function" "name" (reads .templateArguments))]
    .alt (.node "qualified_identifier" (.seq step
      (.field "name" (.alt (.node "qualified_identifier" (.seq (Rule.many1 step) last)) last))))
      last
  else name false

/-! Types and specifiers -/

private def annotated : Rule Name :=
  Rule.choice [
    .node "attribute_specifier" (Rule.sequence [Rule.words ["__attribute__", "__attribute",
      "__declspec", "alignas", "_Alignas"], parens groups]),
    .node "attribute_declaration" (Rule.sequence [.sign "[", .sign "[", groups, .sign "]",
      .sign "]"])]

private def qualifier (isPlus : Bool) : Rule Name :=
  let both := ["static", "extern", "inline", "register", "const", "volatile", "restrict",
    "__inline", "__inline__", "__restrict__", "__extension__", "_Atomic", "_Noreturn",
    "_Thread_local", "thread_local", "constexpr"]
  let plus := ["virtual", "mutable", "consteval", "constinit"]
  let explicit := .seq (.word "explicit") (Rule.opt (parens groups))
  .alt annotated (if isPlus then .alt (Rule.words (both ++ plus)) explicit
    else Rule.words ("auto" :: both))

private def qualifiers (isPlus : Bool) : Rule Name := .many (qualifier isPlus)

private def memberedType (isPlus : Bool) (kind word : String) : Rule Name :=
  let body := .field "body" (.node "field_declaration_list" (braces (.many (reads .member))))
  let bases := Rule.opt (.node "base_class_clause" (.seq (op [":"]) heading))
  let final := Rule.opt (.seq (.word "final") (.ahead (Rule.signs ["\x7b", ":"])))
  let bases := if isPlus then .seq final bases else .done
  .node kind (Rule.sequence [.word word, .many annotated,
    .alt (.seq (.field "name" (reads .path)) (Rule.opt (.seq bases body))) (.seq bases body)])

private def enumType (isPlus : Bool) : Rule Name :=
  let under := Rule.opt (.seq (op [":"]) (reads .type))
  .node "enum_specifier" (Rule.sequence [.word "enum",
    if isPlus then Rule.opt (Rule.words ["class", "struct"]) else .done, .many annotated,
    .alt (Rule.sequence [.field "name" (reads .path), under, Rule.opt (braces groups)])
      (.seq under (braces groups))])

private def typeRule (isPlus : Bool) : Rule Name :=
  let builtin := .node "sized_type_specifier" (Rule.many1 (Rule.words builtinTypes))
  let plus := Rule.choice [memberedType true "class_specifier" "class",
    .node "placeholder" (Rule.words ["auto", "bool"]),
    .node "decltype" (.seq (.word "decltype") (parens groups)),
    .seq (.word "typename") (reads .path)]
  Rule.choice [memberedType isPlus "struct_specifier" "struct",
    memberedType isPlus "union_specifier" "union", enumType isPlus, builtin,
    if isPlus then plus else .never, reads .path]

private def specifiersRule (isPlus : Bool) : Rule Name :=
  Rule.sequence [qualifiers isPlus, .field "type" (reads .type), qualifiers isPlus]

/-! Declarators -/

private def pointer (isPlus : Bool) : Rule Name :=
  .seq (op (if isPlus then ["*", "&", "&&", "^"] else ["*", "^"])) (qualifiers isPlus)

private def trailing (isPlus : Bool) : Rule Name :=
  let guarded := .seq (Rule.words ["noexcept", "throw", "asm", "__asm__"])
    (Rule.opt (parens groups))
  let result := Rule.sequence [op ["->"], reads .specifiers, .many (pointer true)]
  let required := .seq (.word "requires") heading
  if isPlus then
    .many (Rule.choice [Rule.words ["const", "volatile", "override", "final", "try"], guarded,
      op ["&", "&&"], result, required, annotated])
  else .many (.alt guarded annotated)

private def called (isPlus : Bool) : Rule Name := .seq (reads .parameters) (trailing isPlus)

private def declaratorBase (isPlus : Bool) : Rule Name :=
  let binding := .node "structured_binding_declarator" (Rule.sequence [.sign "[",
    Rule.commas (name true), .sign "]"])
  Rule.choice [declared isPlus,
    .node "parenthesized_declarator" (parens (reads .declarator)),
    if isPlus then binding else .never]

private def declaratorRule (isPlus : Bool) : Rule Name :=
  let sized := .wrap "array_declarator" "declarator" (Rule.sequence [.sign "[", groups, .sign "]"])
  .alt (.node "pointer_declarator" (.seq (pointer isPlus) (.field "declarator" (reads .declarator))))
    (.chain (declaratorBase isPlus)
      (.alt (.wrap "function_declarator" "declarator" (called isPlus)) sized))

private def functionalRule (isPlus : Bool) : Rule Name :=
  .alt (.node "pointer_declarator" (.seq (pointer isPlus) (.field "declarator" (reads .functional))))
    (.node "function_declarator"
      (.seq (.field "declarator" (declaratorBase isPlus)) (called isPlus)))

private def parametersRule : Rule Name :=
  let abstract := .many (Rule.choice [pointer true, .node "abstract_array" (Rule.sequence [
    .sign "[", groups, .sign "]"]), .node "abstract_function" (parens groups), op ["..."]])
  let default := Rule.opt (.seq (op ["="]) (reads .value))
  let pack := Rule.opt (op ["..."])
  let parameter := .node "parameter_declaration" (Rule.sequence [reads .specifiers, pack,
    .alt (.seq (reads .declarator) (.ahead (Rule.signs [",", ")", "=", "__attribute__"])))
      abstract, default])
  .node "parameter_list" (parens (Rule.commas0 (.alt (op ["..."]) parameter)))

private def valueRule (isPlus : Bool) : Rule Name :=
  let made := Rule.sequence [name isPlus, reads .templateArguments,
    .ahead (Rule.signs ["(", "\x7b", "::"])]
  let token := Rule.group (reads .group) (tokenBut ",;")
  Rule.many1 (if isPlus then .alt made token else token)

private def begun (isPlus : Bool) : Rule Name :=
  let given := Rule.choice [.seq (op ["="]) (reads .value), .node "initializer_list" (braces groups),
    if isPlus then .node "argument_list" (parens groups) else .never]
  .seq (.field "declarator" (.chain (reads .declarator) (.wrap "init_declarator" "declarator" given)))
    (Rule.opt (.node "bitfield_clause" (.seq (op [":"]) (reads .value))))

/-! Declarations -/

private def functionBody (isPlus : Bool) : Rule Name :=
  let started := Rule.sequence [op [":"], Rule.commas (.seq (reads .path)
    (.alt (parens groups) (braces groups))), block]
  let noBody := Rule.sequence [op ["="], Rule.words ["default", "delete"], heading, semicolon]
  let handled := .seq block
    (.many (Rule.sequence [.word "catch", parens groups, block]))
  if isPlus then Rule.choice [handled, started, noBody] else block

private def functionDefinition (isPlus : Bool) : Rule Name :=
  let older := .many (Rule.sequence [reads .specifiers, Rule.commas (reads .declarator), semicolon])
  .node "function_definition" (Rule.sequence [reads .specifiers,
    .field "declarator" (reads .functional), if isPlus then .done else older,
    functionBody isPlus])

private def untyped : Rule Name :=
  let conversion := .node "operator_cast" (Rule.sequence [.word "operator", reads .specifiers,
    .many (pointer true), .sign "(", .sign ")", trailing true])
  .field "declarator" (.alt conversion (.node "function_declarator"
    (.seq (.field "declarator" (declared true)) (called true))))

private def untypedDefinition : Rule Name :=
  .node "function_definition" (Rule.sequence [qualifiers true, untyped, functionBody true])

private def untypedDeclaration : Rule Name :=
  .node "declaration" (Rule.sequence [qualifiers true, untyped, semicolon])

private def declaration (isPlus : Bool) (kind : String) : Rule Name :=
  .node kind (Rule.sequence [reads .specifiers, Rule.commas (begun isPlus), semicolon])

private def typeDefinition : Rule Name :=
  .node "type_definition" (Rule.sequence [Rule.opt (.word "__extension__"), .word "typedef",
    reads .specifiers, Rule.commas (.field "declarator" (reads .declarator)), .many annotated,
    semicolon])

/-! Lines for the preprocessor -/

private def includeLine : Rule Name :=
  let system : Scan := Scan.all [Scan.text "<", Scan.run (fun c => c != '>' && c != '\n'),
    Scan.text ">"]
  let path := Rule.choice [.leaf "system_lib_string" system, .leaf "string" stringScan,
    .leaf "identifier" (Scan.run1 isNameChar)]
  .node "preproc_include" (Rule.sequence [.leaf "command" (commandScan (· == "include")),
    .field "path" path, Rule.opt (.near "line_end" lineEndScan)])

private def directive (words : List String) : Rule Name :=
  .leaf "directive" (directiveScan words.contains)

private def branching : List String :=
  ["if", "ifdef", "ifndef", "elif", "elifdef", "elifndef", "else", "endif"]

private def plainLine : Rule Name :=
  .leaf "preproc_line" (directiveScan (fun w => !branching.contains w))

private def inner (isMember : Bool) : Rule Name :=
  .many (reads (if isMember then .member else .item))

private def branchRule (isMember : Bool) : Rule Name :=
  let further := Rule.sequence [directive ["elif", "elifdef", "elifndef"], inner isMember,
    Rule.opt (reads (.branch isMember))]
  .alt (.node "preproc_elif" further)
    (.node "preproc_else" (.seq (directive ["else"]) (inner isMember)))

private def condition (isMember : Bool) : Rule Name :=
  let form (kind : String) (words : List String) := .node kind (Rule.sequence [directive words,
    inner isMember, Rule.opt (reads (.branch isMember)), directive ["endif"]])
  .alt (form "preproc_ifdef" ["ifdef", "ifndef"]) (form "preproc_if" ["if"])

private def lines (isMember : Bool) : Rule Name :=
  Rule.choice [includeLine, condition isMember, plainLine]

/-! Items -/

private def skipped (word : String) : Rule Name :=
  .node "skipped" (Rule.sequence [.word word, upTo ";", semicolon])

private def passed : Rule Name :=
  .alt (.node "ERROR" (Rule.group (reads .group) (tokenBut "#"))) (.leaf "ERROR" (Scan.text "#"))

private def definitions (isPlus : Bool) : List (Rule Name) :=
  [typeDefinition, if isPlus then untypedDefinition else .never, functionDefinition isPlus]

private def templateRule (isMember : Bool) : Rule Name :=
  let required := Rule.opt (.seq (.word "requires") (Rule.alt (parens groups) (reads .path)))
  let templated := Rule.choice ([reads (.templated isMember), skipped "using", skipped "concept",
    skipped "friend", .seq (reads .type) semicolon] ++ definitions true ++
    [untypedDeclaration, declaration true "declaration"])
  .alt
    (.node "template_declaration" (Rule.sequence [.word "template", reads .templateArguments,
      required, templated]))
    (.node "template_instantiation" (Rule.sequence [.word "template", upTo ";", semicolon]))

private def plusItem : Rule Name :=
  let list := .field "body" (.node "declaration_list" (braces (.many (reads .item))))
  let path := .node "nested_namespace_specifier" (Rule.separated
    (.seq (op ["::"]) (Rule.opt (.word "inline"))) (name true))
  Rule.choice [
    .node "namespace_definition" (Rule.sequence [Rule.opt (.word "inline"), .word "namespace",
      .many annotated, Rule.opt (.field "name" path), list]),
    skipped "namespace", skipped "using", skipped "static_assert", skipped "friend",
    reads (.templated false)]

private def linkage : Rule Name :=
  let list := .field "body" (.node "declaration_list" (braces (.many (reads .item))))
  .node "linkage_specification" (Rule.sequence [.word "extern", .leaf "string" stringScan,
    .alt list (reads .item)])

private def itemRule (isPlus : Bool) : Rule Name :=
  Rule.choice ([lines false, linkage, if isPlus then plusItem else .never,
    .seq (reads .type) semicolon] ++ definitions isPlus ++
    [if isPlus then untypedDeclaration else .never, declaration isPlus "declaration", semicolon,
      .seq (.notAhead (directive branching)) passed])

private def memberRule (isPlus : Bool) : Rule Name :=
  let access := .node "access_specifier" (Rule.sequence [
    Rule.words ["public", "private", "protected"], Rule.opt (.word "slots"), op [":"]])
  let plus := Rule.choice [access, skipped "using", skipped "static_assert",
    .node "friend_declaration" (.seq (.word "friend") (reads .member)), reads (.templated true)]
  let bare := .node "field_declaration" (.seq (reads .specifiers) semicolon)
  Rule.choice ([lines true, if isPlus then plus else .never, bare] ++ definitions isPlus ++
    [if isPlus then untypedDeclaration else .never, declaration isPlus "field_declaration",
      semicolon, .seq (.notAhead (directive branching)) passed])

private def templateArgumentsRule : Rule Name :=
  .node "template_argument_list" (Rule.sequence [.sign "<",
    .many (.alt (reads .templateArguments) (Rule.group (reads .group) (tokenBut "<>;"))),
    .sign ">"])

private def rules (isPlus : Bool) : Name → Rule Name
  | .item => itemRule isPlus
  | .member => memberRule isPlus
  | .type => typeRule isPlus
  | .specifiers => specifiersRule isPlus
  | .declarator => declaratorRule isPlus
  | .functional => functionalRule isPlus
  | .parameters => parametersRule
  | .group => Rule.group (reads .group) (tokenBut "")
  | .value => valueRule isPlus
  | .templateArguments => templateArgumentsRule
  | .path => pathRule isPlus
  | .templated isMember => templateRule isMember
  | .branch isMember => branchRule isMember

private def grammar (isPlus : Bool) : Syntax.Grammar Name where
  rule := rules isPlus
  isWordChar := isNameChar
  between := fun _ => between

def read? (isPlus : Bool) (text : List Char) : Option Node :=
  let stray := .leaf "ERROR" (Scan.one (fun _ => true))
  (grammar isPlus).read? "translation_unit" (.many (.alt (reads .item) stray)) text

end CodeOutline.Grammar.Cpp
