import CodeOutline.Syntax.Scan

/-!
The grammar of style sheets: rule sets, declarations and at-rules, nested freely.
-/

set_option autoImplicit false

namespace CodeOutline.Grammar.Css

open Syntax

inductive Name
  | item | block | selector | value | query | arguments

def isNameStart (c : Char) : Bool :=
  c.isAlpha || c == '_' || (0xA0 ≤ c.toNat && c.toNat ≤ 0xFF)

def isNameChar (c : Char) : Bool := isNameStart c || c.isDigit || c == '-'

def nameScan : Scan :=
  Scan.seq (Scan.first [Scan.text "--", Scan.seq (Scan.opt (Scan.text "-")) (Scan.one isNameStart)])
    (Scan.run isNameChar)

def isDelimiter (c : Char) : Bool :=
  Scan.blank c || ",;!\x7b\x7d()[]".toList.contains c

def slashPair : Scan :=
  Scan.seq (Scan.text "/") (Scan.one (fun c => c != '*' && !isDelimiter c))

def plainScan : Scan :=
  Scan.all [
    Scan.many (Scan.alt (Scan.one (fun c => c == '-' || c == '_')) slashPair),
    Scan.one Char.isAlpha,
    Scan.many (Scan.alt (Scan.one (fun c => c != '/' && !isDelimiter c)) slashPair)]

def stringScan (quote : Char) : Scan :=
  let mark := Scan.one (· == quote)
  let char := Scan.alt (Scan.seq (Scan.text "\\") (Scan.one (fun _ => true)))
    (Scan.one (fun c => c != quote && c != '\n' && c != '\\'))
  Scan.all [mark, Scan.many char, mark]

def signScan : Scan := Scan.opt (Scan.one (fun c => c == '+' || c == '-'))

def floatScan : Scan :=
  let exponent := Scan.all [Scan.one (fun c => c == 'e' || c == 'E'), Scan.opt (Scan.text "-"),
    Scan.run1 Scan.digit]
  Scan.all [signScan, Scan.run Scan.digit,
    Scan.alt (Scan.all [Scan.text ".", Scan.run1 Scan.digit, Scan.opt exponent]) exponent]

def unit : Scan := Scan.opt (Scan.run1 (fun c => c.isAlpha || c == '%'))

def colorScan : Scan :=
  Scan.seq (Scan.text "#") (fun cs =>
    let n := (cs.takeWhile Scan.hexDigit).length
    if n < 3 then none else some (min n 8))

def name (kind : String) : Rule Name := .leaf kind nameScan

def string : Rule Name :=
  .leaf "string_value" (Scan.alt (stringScan '"') (stringScan '\''))

def isBlankBefore (before after : Cursor) : Bool :=
  let passed := before.rest.take (after.place.offset - before.place.offset)
  (passed.getLast?.map Scan.blank).getD false

def opensBlock (cs : List Char) : Bool :=
  (cs.find? "\x7b\x7d;".toList.contains) == some '\x7b'

def descent : Rule Name :=
  .test (fun before after => isBlankBefore before after &&
    match after.rest with
    | ':' :: rest => !(rest.head?.map Scan.blank).getD true && opensBlock rest
    | c :: _ => "#.[-*&".toList.contains c || c.isAlphanum
    | [] => false)

def joined : Rule Name := .test (fun before after => !isBlankBefore before after)

def className : Rule Name :=
  let guarded := Scan.seq (Scan.text "\\") (Scan.one (· != '\n'))
  .leaf "class_name" (Scan.seq (Scan.alt guarded nameScan)
    (Scan.many (Scan.alt guarded (Scan.run1 isNameChar))))

def pseudo : Rule Name :=
  Rule.sequence [.alt (.sign "::") (.sign ":"), name "class_name",
    Rule.opt (Rule.sequence [Rule.tight, .sign "(",
      Rule.commas0 (.alt
        (.seq (.call .selector) (.ahead (Rule.signs [",", ")"])))
        (Rule.many1 (.call .value))),
      .sign ")"])]

def bracketed : Rule Name :=
  Rule.sequence [.sign "[", Rule.separated (.sign "|") (name "attribute_name"),
    Rule.opt (.seq (Rule.signs ["=", "~=", "^=", "|=", "*=", "$="]) (.call .value)), .sign "]"]

def refinement : Rule Name :=
  Rule.choice [.seq (.sign ".") className, .seq (.sign "#") (name "id_name"), pseudo, bracketed]

def simple : Rule Name :=
  Rule.choice [.leaf "universal_selector" (Scan.text "*"), .leaf "nesting_selector" (Scan.text "&"),
    name "tag_name", refinement, string]

def combined : Rule Name :=
  Rule.choice [.seq (Rule.signs [">", "~", "+", "|"]) simple, .seq descent simple,
    .seq joined refinement]

def queries : Rule Name := Rule.commas0 (.call .query)

def values : Rule Name :=
  .seq (.call .value) (.many (.seq (Rule.opt (.sign ",")) (.call .value)))

def declarationParts : List (Rule Name) :=
  [name "property_name", .sign ":", values, Rule.opt (.leaf "important" (Scan.text "!important"))]

def declaration : Rule Name :=
  .node "declaration" (Rule.sequence (declarationParts ++ [.sign ";"]))

def lastDeclaration : Rule Name :=
  .seq (.node "declaration" (Rule.sequence declarationParts)) (.ahead (.sign "\x7d"))

def keyframes : Rule Name :=
  let keyword : Scan := Scan.such (fun w => Text.endsWith (String.ofList w) "keyframes")
    (Scan.seq (Scan.text "@") (Scan.run1 isNameChar))
  let mark := Rule.choice [.word "from", .word "to", .leaf "float_value" (Scan.seq floatScan unit),
    .leaf "integer_value" (Scan.all [signScan, Scan.run1 Scan.digit, unit])]
  .node "keyframes_statement" (Rule.sequence [.leaf "at_keyword" keyword, name "keyframes_name",
    .node "keyframe_block_list" (Rule.sequence [.sign "\x7b",
      .many (.node "keyframe_block" (.seq mark (.call .block))), .sign "\x7d"])])

def atKeyword : Rule Name :=
  .leaf "at_keyword" (Scan.such (fun w =>
      !(["@media", "@import", "@charset", "@namespace", "@supports", "@keyframes"].contains
        (String.ofList w)))
    (Scan.seq (Scan.text "@") (Scan.run1 (fun c => c.isAlpha || c == '-' || c == '_'))))

def rules : Name → Rule Name
  | .item => Rule.choice [
      declaration,
      .node "rule_set" (.seq (.node "selectors" (Rule.commas (.call .selector))) (.call .block)),
      .node "import_statement"
        (Rule.sequence [.word "@import", .call .value, queries, .sign ";"]),
      .node "media_statement"
        (Rule.sequence [.word "@media", Rule.commas (.call .query), .call .block]),
      .node "charset_statement" (Rule.sequence [.word "@charset", .call .value, .sign ";"]),
      .node "namespace_statement" (Rule.sequence [.word "@namespace",
        Rule.opt (.seq (name "namespace_name") (.notAhead (.seq Rule.tight (.sign "(")))),
        .call .value, .sign ";"]),
      keyframes,
      .node "supports_statement"
        (Rule.sequence [.word "@supports", .call .query, .call .block]),
      .node "at_rule" (Rule.sequence [atKeyword, queries, .alt (.sign ";") (.call .block)])]
  | .block => .node "block" (Rule.sequence [.sign "\x7b", .many (.alt (.call .item)
        (.node "at_statement" (Rule.sequence [atKeyword, .many (.call .value),
          .sign ";"]))),
      Rule.opt lastDeclaration, .sign "\x7d"])
  | .selector => .node "selector"
      (.seq (.alt simple (.seq (Rule.signs [">", "~", "+"]) simple)) (.many combined))
  | .arguments => Rule.sequence [Rule.tight, .sign "(",
      Rule.opt (Rule.separated (Rule.signs [",", ";"]) (Rule.many1 (.call .value))), .sign ")"]
  | .value =>
    let operand := .inside (Rule.choice [
      .node "call_expression" (.seq (name "function_name") (.call .arguments)),
      .leaf "plain_value" plainScan, name "plain_value", .leaf "color_value" colorScan,
      .leaf "float_value" (Scan.seq floatScan unit),
      .leaf "integer_value" (Scan.all [signScan, Scan.run1 Scan.digit, unit]), string,
      .node "grid_value" (Rule.sequence [.sign "[", Rule.commas (Rule.many1 (.call .value)),
        .sign "]"]),
      .node "parenthesized_value" (Rule.sequence [.sign "(", .call .value, .sign ")"])])
    .chain operand
      (.wrap "binary_expression" "left" (.seq (Rule.signs ["+", "-", "*", "/"]) operand))
  | .query =>
    let operand := Rule.choice [
      .node "unary_query" (.seq (Rule.words ["not", "only"]) (.call .query)),
      .node "selector_query" (Rule.sequence [.word "selector", .sign "(", .call .selector,
        .sign ")"]),
      name "keyword_query",
      .node "feature_query" (Rule.sequence [.sign "(", name "feature_name", .sign ":",
        Rule.many1 (.call .value), .sign ")"]),
      .node "parenthesized_query" (Rule.sequence [.sign "(", .call .query, .sign ")"])]
    .chain operand (.wrap "binary_query" "left" (.seq (Rule.words ["and", "or"]) operand))

def lineComment (inValue : Bool) : Scan := fun cs =>
  if inValue && (plainScan cs).isSome then none else Scan.slashComment cs

def grammar : Syntax.Grammar Name where
  rule := rules
  isWordChar := isNameChar
  between := fun depth =>
    Scan.between [("comment", Scan.blockComment), ("line_comment", lineComment (0 < depth))]

def read? (text : List Char) : Option Node :=
  grammar.read? "stylesheet" (.many (.call .item)) text

end CodeOutline.Grammar.Css
