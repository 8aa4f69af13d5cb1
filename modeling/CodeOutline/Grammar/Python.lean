import CodeOutline.Grammar.Python.Token

/-!
The grammar of Python documents. Blocks are told by the indentation of their lines. What
cannot be read is passed over up to the end of its line.
-/

set_option autoImplicit false

namespace CodeOutline.Grammar.Python

open Syntax

inductive Name
  | line | simple | block | expression | list | operand | primary | arguments | parameters
  | assignment

private def reads : Name → Rule Name := .call

private def operators : List String :=
  ["=", "==", "!=", "<", "<=", "<<", "<<=", "<>", ">", ">=", ">>", ">>=", "+", "+=", "-", "-=",
    "->", "*", "*=", "**", "**=", "/", "/=", "//", "//=", "%", "%=", "&", "&=", "|", "|=", "^",
    "^=", "~", "@", "@=", ":", ":=", ".", "..."]

private def op (wanted : List String) : Rule Name := .longest operators wanted

private def name : Rule Name := .leaf "identifier" nameScan

private def string : Rule Name := .leaf "string" stringScan

private def parens (a : Rule Name) : Rule Name :=
  Rule.sequence [.sign "(", .inside a, .inside (.sign ")")]

private def brackets (a : Rule Name) : Rule Name :=
  Rule.sequence [.sign "[", .inside a, .inside (.sign "]")]

private def braces (a : Rule Name) : Rule Name :=
  Rule.sequence [.sign "\x7b", .inside a, .inside (.sign "\x7d")]

private def items (a : Rule Name) : Rule Name := .many (.alt (.sign ",") a)

/-! Lines and blocks -/

private def lineEnd : Rule Name :=
  .seq (Rule.opt (.leaf "comment" commentScan))
    (.test (fun _ after => after.rest.isEmpty || after.rest.head? == some '\n'))

def top (c : Cursor) : Nat := c.indents.head?.getD 0

def nextInBlock : Rule Name :=
  .move (fun before _ =>
    match nextLine 0 0 (before.place.offset == 0) false before.rest with
    | some (count, indent, true) => if top before ≤ indent then some (before.skip count) else none
    | _ => none)

def opensBlock : Rule Name :=
  .move (fun before _ =>
    match nextLine 0 0 false false before.rest with
    | some (count, indent, true) =>
      if top before < indent then
        some { before.skip count with indents := indent :: before.indents }
      else none
    | _ => none)

def closesBlock : Rule Name :=
  .move (fun before _ => some { before with indents := before.indents.drop 1 })

private def simpleLine : Rule Name :=
  Rule.sequence [Rule.separated (.sign ";") (reads .simple), Rule.opt (.sign ";"), lineEnd]

private def blockRule : Rule Name :=
  let lines := .seq (reads .line) (.many (.seq nextInBlock (reads .line)))
  let comment := Rule.opt (.leaf "comment" commentScan)
  .node "block" (Rule.choice [Rule.sequence [comment, opensBlock, lines, closesBlock],
    simpleLine, lineEnd])

private def body : Rule Name := .seq (op [":"]) (.field "body" (reads .block))

private def clause (a : Rule Name) : Rule Name :=
  Rule.sequence [nextInBlock, a, body]

/-! Expressions -/

private def starred : Rule Name :=
  .alt (.node "list_splat" (.seq (op ["*", "**"]) (reads .operand))) (reads .expression)

private def listRule : Rule Name :=
  .chain starred (.wrap "expression_list" "item" (.seq (.sign ",") (Rule.opt starred)))

private def comprehension : Rule Name :=
  let targets := Rule.commasEnd (.seq (Rule.opt (op ["*"])) (reads .primary))
  let source := Rule.sequence [Rule.opt (.word "async"), .word "for", targets, .word "in",
    reads .operand]
  .seq source (.many (.alt source (.seq (.word "if") (reads .operand))))

private def gathered (item : Rule Name) : Rule Name :=
  .seq (Rule.opt item) (.alt comprehension (items item))

private def argumentsRule : Rule Name :=
  let keyed := .node "keyword_argument" (Rule.sequence [name, op ["="], reads .expression])
  .node "argument_list" (parens (gathered (.alt keyed starred)))

private def yielded : Rule Name :=
  .node "yield" (.seq (.word "yield") (.alt (.seq (.word "from") (reads .expression))
    (Rule.opt (reads .list))))

private def slice : Rule Name :=
  let bound := Rule.opt (reads .expression)
  let rest := Rule.sequence [op [":"], bound, Rule.opt (.seq (op [":"]) bound)]
  .alt (.node "slice" rest) (.chain starred (.wrap "slice" "start" rest))

private def atom : Rule Name :=
  let strings := .chain string (.wrap "concatenated_string" "part" string)
  let pair := .alt (.seq (op ["**"]) (reads .operand))
    (Rule.sequence [reads .expression, op [":"], reads .expression])
  Rule.choice [strings, name, .leaf "number" numberScan,
    .node "none" (.word "None"), .node "true" (.word "True"), .node "false" (.word "False"),
    .node "ellipsis" (op ["..."]),
    .node "parenthesized_expression" (parens (.alt yielded (gathered starred))),
    .node "list" (brackets (gathered starred)),
    .alt (.node "dictionary" (braces (gathered pair))) (.node "set" (braces (gathered starred)))]

private def primaryRule : Rule Name :=
  .chain atom (Rule.choice [
    .wrap "attribute" "object" (.seq (op ["."]) (.field "attribute" name)),
    .wrap "call" "function" (reads .arguments),
    .wrap "subscript" "value" (brackets (items slice))])

private def operandRule : Rule Name :=
  let words := Rule.choice [.word "and", .word "or", .word "in",
    .seq (.word "not") (.word "in"), .seq (.word "is") (Rule.opt (.word "not"))]
  let signs := op ["<", "<=", ">", ">=", "==", "!=", "<>", "|", "^", "&", "<<", ">>", "+", "-",
    "*", "/", "//", "%", "@", "**"]
  let fore := .alt (op ["-", "+", "~"]) (Rule.words ["not", "await"])
  let single := .alt (.node "unary_operator" (.seq (Rule.many1 fore) (reads .primary)))
    (reads .primary)
  .chain single (.wrap "binary_operator" "left" (.seq (.alt words signs) single))

private def lambda : Rule Name :=
  let argument := Rule.sequence [Rule.opt (op ["*", "**", "/"]), Rule.opt name,
    Rule.opt (.seq (op ["="]) (reads .expression))]
  .node "lambda" (Rule.sequence [.word "lambda", Rule.commas argument, op [":"],
    reads .expression])

private def expressionRule : Rule Name :=
  .alt lambda (.chain (reads .operand) (.alt
    (.wrap "conditional_expression" "then" (Rule.sequence [.word "if", reads .operand,
      .word "else", reads .expression]))
    (.wrap "named_expression" "name" (.seq (op [":="]) (reads .expression)))))

/-! Simple statements -/

private def targets : Rule Name :=
  let target := .alt (.node "list_splat_pattern" (.seq (op ["*"]) (reads .primary)))
    (reads .primary)
  .chain target (.wrap "pattern_list" "item" (.seq (.sign ",") (Rule.opt target)))

private def assignmentRule : Rule Name :=
  let value := Rule.choice [reads .assignment, yielded, reads .list]
  let left := .field "left" targets
  let plain := .seq (op ["="]) (.field "right" value)
  let typed := Rule.sequence [op [":"], .field "type" (reads .expression), Rule.opt plain]
  let marks := ["+=", "-=", "*=", "/=", "@=", "//=", "%=", "**=", ">>=", "<<=", "&=", "^=", "|="]
  .alt (.node "assignment" (.seq left (.alt plain typed)))
    (.node "augmented_assignment" (Rule.sequence [left, op marks, .field "right" value]))

private def importStatement : Rule Name :=
  let path := Rule.separated (.sign ".") name
  let renamed (a : Rule Name) := .seq a (Rule.opt (.seq (.word "as") name))
  let source := .alt (.seq (Rule.many1 (.sign ".")) (Rule.opt path)) path
  let names := Rule.commasEnd (renamed name)
  let excess := Rule.opt (.node "ERROR" (.leaf "text"
    (Scan.run1 (fun c => c != '\n' && c != ';' && c != '#'))))
  .alt
    (.node "import_statement" (Rule.sequence [.word "import", Rule.commasEnd (renamed path),
      excess]))
    (.node "import_from_statement" (Rule.sequence [.word "from", source, .word "import",
      Rule.choice [.sign "*", parens names, names], excess]))

private def simpleRule : Rule Name :=
  let valued (kind w : String) := .node kind (.seq (.word w) (Rule.opt (reads .list)))
  let starts := .notAhead (Rule.signs ["(", "=", ".", ",", "[", ":", ")"])
  Rule.choice [importStatement,
    .node "assert_statement" (.seq (.word "assert") (reads .list)),
    valued "return_statement" "return", .node "delete_statement" (.seq (.word "del") (reads .list)),
    .node "raise_statement" (Rule.sequence [.word "raise", Rule.opt (reads .list),
      Rule.opt (.seq (.word "from") (reads .expression))]),
    .node "plain_statement" (Rule.words ["pass", "break", "continue"]),
    .node "scope_statement" (.seq (Rule.words ["global", "nonlocal"]) (Rule.commas name)),
    .node "type_alias_statement" (Rule.sequence [.word "type", reads .primary, op ["="],
      reads .expression]),
    .node "print_statement" (Rule.sequence [Rule.words ["print", "exec"], starts,
      Rule.opt (op [">>"]), reads .list]),
    .node "expression_statement" (.alt (reads .assignment) (.alt yielded (reads .list)))]

/-! Compound statements -/

private def annotated (a : Rule Name) : Rule Name :=
  Rule.sequence [a, op [":"], .field "type" starred]

private def parametersRule : Rule Name :=
  let spread := .alt (.node "list_splat_pattern" (.seq (op ["*"]) name))
    (.node "dictionary_splat_pattern" (.seq (op ["**"]) name))
  let default := .seq (op ["="]) (.field "value" (reads .expression))
  let tuple := .node "tuple_pattern" (parens (items (reads .primary)))
  let parameter := Rule.choice [
    .node "typed_default_parameter" (.seq (annotated (.field "name" name)) default),
    .node "default_parameter" (.seq (.field "name" (.alt name tuple)) default),
    .node "typed_parameter" (annotated (.alt name spread)), name, spread, tuple,
    .node "keyword_separator" (op ["*"]), .node "positional_separator" (op ["/"])]
  .node "parameters" (Rule.sequence [.sign "(", .inside (items parameter),
    .inside (.alt (.sign ")") (.ahead (op [":"])))])

private def typeParameters : Rule Name :=
  Rule.opt (.node "type_parameter" (brackets (items (.alt (annotated name) starred))))

private def definition : Rule Name :=
  .alt
    (.node "function_definition" (Rule.sequence [Rule.opt (.word "async"), .word "def",
      .field "name" name, typeParameters, .field "parameters" (reads .parameters),
      Rule.opt (.seq (op ["->"]) (.field "return_type" (reads .expression))), body]))
    (.node "class_definition" (Rule.sequence [.word "class", .field "name" name, typeParameters,
      Rule.opt (reads .arguments), body]))

private def decorated : Rule Name :=
  let decorator := .node "decorator" (Rule.sequence [op ["@"], reads .expression, lineEnd])
  .node "decorated_definition" (.seq (Rule.many1 (.seq decorator nextInBlock))
    (.field "definition" definition))

private def withItem : Rule Name :=
  .seq (reads .expression) (Rule.opt (.seq (.word "as") starred))

private def matchStatement : Rule Name :=
  let pattern := .seq (reads .list) (Rule.opt (.seq (.word "as") name))
  let guard := Rule.opt (.seq (.word "if") (reads .expression))
  let case := .node "case_clause" (Rule.sequence [.word "case", pattern, guard, body])
  .node "match_statement" (Rule.sequence [.word "match", reads .list, op [":"], opensBlock, case,
    .many (.seq nextInBlock case), closesBlock])

private def compound : Rule Name :=
  let otherwise := Rule.opt (clause (.word "else"))
  let handled := Rule.sequence [.word "except", Rule.opt (op ["*"]),
    Rule.opt (.seq (reads .list) (Rule.opt (.seq (.word "as") starred)))]
  Rule.choice [definition, decorated,
    .node "if_statement" (Rule.sequence [.word "if", reads .expression, body,
      .many (clause (.seq (.word "elif") (reads .expression))), otherwise]),
    .node "for_statement" (Rule.sequence [Rule.opt (.word "async"), .word "for", targets,
      .word "in", reads .list, body, otherwise]),
    .node "while_statement" (Rule.sequence [.word "while", reads .expression, body, otherwise]),
    .node "try_statement" (Rule.sequence [.word "try", body, .many (clause handled), otherwise,
      Rule.opt (clause (.word "finally"))]),
    .node "with_statement" (Rule.sequence [Rule.opt (.word "async"), .word "with",
      .alt (.seq (Rule.commasEnd withItem) body) (.seq (parens (items withItem)) body)]),
    matchStatement]

private def lineRule : Rule Name :=
  Rule.choice [compound, simpleLine,
    .seq (.node "ERROR" (.leaf "text" (Scan.run1 Scan.notNewline))) lineEnd]

def rules : Name → Rule Name
  | .line => lineRule
  | .simple => simpleRule
  | .block => blockRule
  | .expression => expressionRule
  | .list => listRule
  | .operand => operandRule
  | .primary => primaryRule
  | .arguments => argumentsRule
  | .parameters => parametersRule
  | .assignment => assignmentRule

def grammar : Syntax.Grammar Name where
  rule := rules
  isWordChar := isNameChar
  between := between

def remainder : Rule Name :=
  .move (fun before _ =>
    match nextLine 0 0 true false before.rest with
    | none => some (before.skip before.rest.length)
    | some _ => none)

/-- The tree of a document. Passing over what cannot be read, the reading always comes to
the end, but for brackets nested beyond every measure. -/
def read? (text : List Char) : Option Node :=
  grammar.read? "module" (.seq (.many (.seq nextInBlock (reads .line))) remainder) text

end CodeOutline.Grammar.Python
