import CodeOutline.Text.Comment
import CodeOutline.Token.Builder

/-!
The outline of home automation rules, read line by line without comments. Variables are
declared between the last import and the first rule, outside of lambda bodies. A name is
placed at its first occurrence in the text.
-/

set_option autoImplicit false

namespace CodeOutline.Analysis.Rules

def nonempty? (s : String) : Option String := if s.isEmpty then none else some s

/-- The name that an import line imports. -/
def importName? (line : String) : Option String := do
  let rest ← Text.afterStart? "import" (Text.trim line)
  if (rest.toList.head?.map Text.isBlank).getD false then
    nonempty? (Text.trim (Text.dropRight (· == ';') (Text.trim rest)))
  else none

/-- The name of the rule that a line begins. -/
def ruleName? (line : String) : Option String := do
  let rest ← Text.afterStart? "rule" (Text.trim line)
  let follows (c : Char) : Bool := Text.isBlank c || c == '"' || c == '\''
  if (rest.toList.head?.map follows).getD false then nonempty? (Text.unquote rest) else none

/-- The name that a line declares; a type may stand before it. -/
def variableName? (line : String) : Option String := do
  let trimmed := Text.trim line
  let rest ← (Text.afterStart? "val " trimmed).orElse (fun _ => Text.afterStart? "var " trimmed)
  (Text.words (String.ofList (rest.toList.takeWhile (· != '=')))).getLast?

def afterImports (lines : List String) : List String :=
  (lines.reverse.takeWhile (fun l => (importName? l).isNone)).reverse

def sharedLines (lines : List String) : List String :=
  let rest := afterImports lines
  let start := lines.length - rest.length
  let stop := (lines.takeWhile (fun l => (ruleName? l).isNone)).length
  rest.take (stop - start)

def addLine (text : String) (t : TokenTree) (line : String) : TokenTree :=
  match importName? line with
  | some name => t.addImport { name, span := Text.firstOccurrence? text name }
  | none =>
    match ruleName? line with
    | some name => t.addRule { name, span := Text.firstOccurrence? text name }
    | none => t

/-- The outline of a document. -/
def tree (text : String) : TokenTree :=
  let stripped := Text.stripComments text.toList
  let t := (Text.lines (String.ofList stripped)).foldl (addLine text) .empty
  let shared := sharedLines (Text.lines (String.ofList (Text.stripLambdas stripped)))
  (shared.filterMap variableName?).foldl (fun t name =>
    t.addVariable { name, span := Text.firstOccurrence? text name }) t

end CodeOutline.Analysis.Rules
