import CodeOutline.Grammar.Yaml.Token

/-!
The grammar of YAML documents. The columns of the open blocks tell where a block ends: its
entries stand in its column, and all that belongs to an entry stands farther right.
-/

set_option autoImplicit false

namespace CodeOutline.Grammar.Yaml

open Syntax

private inductive Name
  | block | value | nested | properties | content | flow | flowValue | flowEntry

private def reads : Name → Rule Name := .call

/-! Places -/

private def forward : Rule Name := .move (fun _ after => some after)

private def onNextLine : Rule Name :=
  .test (fun before after => before.place.line < after.place.line)

private def deeper : Rule Name := .test (fun _ after => margin after ≤ after.place.column)

private def inColumn : Rule Name :=
  .test (fun _ after => after.indents.head? == some after.place.column)

private def openBlock : Rule Name :=
  .move (fun _ after => some { after with indents := after.place.column :: after.indents })

private def closeBlock : Rule Name :=
  .move (fun before _ => some { before with indents := before.indents.drop 1 })

private def noTab : Rule Name :=
  .test (fun before _ => (before.rest.dropWhile (· == ' ')).head? != some '\t')

private def nothing : Rule Name := .near "empty" (fun _ => some 0)

/-! Scalars -/

private def aliasRule : Rule Name := .leaf "alias" (nameScan "*")

private def plain : Rule Name := .seq forward (.placed "plain" plainScan)

private def quoted : Rule Name :=
  .alt (.leaf "single" singleScan) (.leaf "double" doubleScan)

private def linesRule : Rule Name :=
  let column (c : Cursor) : Nat := c.indents.head?.getD 0
  let ends : Rule Name := .placed "ends" (fun c => lineEnds (column c))
  let skipMargin : Rule Name := .move (fun before _ =>
    if (before.rest.takeWhile (· == ' ')).length < column before then none
    else some (before.skip (column before)))
  let enter : Rule Name := .move (fun before _ =>
    (blockColumn? (margin before) before.rest).map
      (fun column => { before with indents := column :: before.indents }))
  .node "lines" (Rule.sequence [forward, enter, .near "header" headerScan,
    .many (Rule.sequence [ends, skipMargin, .near "line" (Scan.run1 Scan.notNewline)]),
    Rule.opt ends, closeBlock])

/-! Brackets -/

private def flowList (kind opening closing : String) : Rule Name :=
  .node kind (.seq (.sign opening) (.inside (Rule.sequence [
    Rule.opt (Rule.commasEnd (reads .flowEntry)), .sign closing])))

private def flowContent : Rule Name :=
  Rule.choice [flowList "list" "[" "]", flowList "map" "\x7b" "\x7d", quoted, plain]

private def propertiesRule : Rule Name :=
  let anchor := .leaf "anchor" (nameScan "&")
  let tag := .leaf "tag" tagScan
  .alt (.seq anchor (Rule.opt tag)) (.seq tag (Rule.opt anchor))

private def flowRule : Rule Name :=
  Rule.choice [aliasRule,
    .node "value" (.seq (reads .properties) (.alt flowContent nothing)),
    flowContent]

private def flowValueRule : Rule Name :=
  .seq (.sign ":") (.alt (.field "value" (reads .flow)) (.field "value" nothing))

private def flowEntryRule : Rule Name :=
  let asked := .node "pair" (Rule.sequence [.sign "?",
    .field "key" (.alt (reads .flow) nothing),
    .alt (reads .flowValue) (.field "value" nothing)])
  .alt asked (.chain (reads .flow) (.wrap "pair" "key" (.seq Rule.sameLine (reads .flowValue))))

/-! Blocks -/

private def dash : Rule Name := .seq (.leaf "dash" (indicator "-")) noTab

private def listEntry : Rule Name :=
  .seq dash (.alt (.seq deeper (reads .block)) nothing)

private def entries (entry : Rule Name) : Rule Name := Rule.many1 (.seq inColumn entry)

private def blockList : Rule Name :=
  .node "list" (Rule.sequence [.ahead dash, openBlock, entries listEntry, closeBlock])

private def flushList : Rule Name :=
  Rule.sequence [inColumn, .ahead dash, .node "list" (entries listEntry)]

private def keyRule : Rule Name :=
  let content := Rule.choice [.leaf "single" (oneLine singleScan),
    .leaf "double" (oneLine doubleScan), .seq forward (.placed "plain" plainLineScan),
    flowList "list" "[" "]", flowList "map" "\x7b" "\x7d"]
  Rule.choice [aliasRule, .node "value" (.seq (reads .properties) (.seq Rule.sameLine content)),
    content]

private def mapEntry : Rule Name :=
  let asked := .leaf "asked" (indicator "?")
  let colon := .leaf "colon" (indicator ":")
  .alt
    (.node "pair" (Rule.sequence [asked, noTab,
      .field "key" (.alt (.seq deeper (reads .block)) nothing),
      .alt (Rule.sequence [inColumn, colon, noTab,
        .field "value" (.alt (.seq deeper (reads .block)) nothing)]) (.field "value" nothing)]))
    (.node "pair" (Rule.sequence [.field "key" keyRule, Rule.sameLine, colon,
      .field "value" (reads .value)]))

private def blockMap : Rule Name :=
  .node "map" (Rule.sequence [openBlock, entries mapEntry, closeBlock])

private def contentRule : Rule Name := .seq deeper (Rule.choice [linesRule, flowContent])

private def nestedRule : Rule Name :=
  Rule.choice [
    Rule.sequence [onNextLine, deeper, .alt blockList blockMap],
    reads .content]

private def blockRule : Rule Name :=
  Rule.choice [blockList, blockMap, aliasRule,
    .node "value" (.seq (reads .properties) (.alt (reads .nested) nothing)),
    reads .content]

private def valueRule : Rule Name :=
  Rule.choice [
    Rule.sequence [onNextLine, deeper, reads .block],
    .seq onNextLine flushList,
    .seq deeper aliasRule,
    .node "value" (Rule.sequence [deeper, reads .properties,
      Rule.choice [.seq onNextLine flushList, reads .nested, nothing]]),
    reads .content,
    nothing]

private def rules : Name → Rule Name
  | .block => blockRule
  | .value => valueRule
  | .nested => nestedRule
  | .properties => propertiesRule
  | .content => contentRule
  | .flow => flowRule
  | .flowValue => flowValueRule
  | .flowEntry => flowEntryRule

private def grammar : Syntax.Grammar Name where
  rule := rules
  isWordChar := Char.isAlphanum
  between := between

private def documentRule : Rule Name :=
  let marker (sign : String) : Rule Name := .seq forward (.placed "marker" (markerScan sign))
  let directive : Rule Name := .seq forward (.placed "directive" directiveScan)
  Rule.sequence [
    .alt (Rule.sequence [.many directive, marker "---", reads .value])
      (Rule.sequence [.notAhead directive, noTab, .alt (reads .block) nothing]),
    .many (marker "...")]

def normalizeEnds : List Char → List Char
  | '\r' :: '\n' :: cs => '\n' :: normalizeEnds cs
  | c :: cs => (if c = '\r' || c.toNat = 0x85 then '\n' else c) :: normalizeEnds cs
  | [] => []

def isPrintable (c : Char) : Bool :=
  let n := c.toNat
  n == 9 || n == 10 || (0x20 ≤ n && n ≤ 0x7E) || (0xA0 ≤ n && n ≤ 0xFFFD) || 0x10000 ≤ n

def read? (text : List Char) : Option Node :=
  let text := normalizeEnds (match text with
    | c :: cs => if c.toNat = 0xFEFF then cs else text
    | [] => [])
  if text.all isPrintable then grammar.read? "document" documentRule text else none

end CodeOutline.Grammar.Yaml
