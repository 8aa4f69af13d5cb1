import CodeOutline.Analysis.CFamily
import CodeOutline.Analysis.Css
import CodeOutline.Analysis.Items
import CodeOutline.Analysis.Java
import CodeOutline.Analysis.Json
import CodeOutline.Analysis.Less
import CodeOutline.Analysis.Php
import CodeOutline.Analysis.Python
import CodeOutline.Analysis.Rapid
import CodeOutline.Analysis.Rules
import CodeOutline.Analysis.Script
import CodeOutline.Analysis.Symbols
import CodeOutline.Config
import CodeOutline.Document
import CodeOutline.Failure
import CodeOutline.Token.Columns

/-!
The analyses by language, and which documents each of them claims.
-/

set_option autoImplicit false

namespace CodeOutline

inductive Analyzer
  | php | java | script | cfamily | python | rules | items | css | less | rapid | json
deriving DecidableEq, Repr, Inhabited

namespace Analyzer

/-- All analyzers in the order in which they are asked. -/
def all : List Analyzer :=
  [.php, .java, .script, .cfamily, .python, .rules, .items, .css, .less, .rapid, .json]

/-- The name under which a configuration may allow the analyzer. -/
def provider : Analyzer → String
  | .php => "php"
  | .java => "java"
  | .script => "javascript"
  | .cfamily => "cfamily"
  | .python => "python"
  | .rules | .items => "openhab"
  | .css => "css"
  | .less => "less"
  | .rapid => "rapid"
  | .json => "json"

def languageIds : Analyzer → List String
  | .php => ["php"]
  | .java => ["java"]
  | .script => ["typescript", "javascript", "typescriptreact", "javascriptreact"]
  | .cfamily => ["csharp", "c", "cpp"]
  | .python => ["python"]
  | .rules | .items => ["openhab"]
  | .css => ["css"]
  | .less => ["less"]
  | .rapid => ["rapid"]
  | .json => ["json"]

/-- The end of the file names that the analyzer takes, where a language id has several
kinds of files. -/
def fileEnd : Analyzer → String
  | .rules => "rules"
  | .items => "items"
  | _ => ""

/-- The analyzer takes the document. -/
def claims (a : Analyzer) (d : Document) : Bool :=
  a.languageIds.any d.isLanguage && Text.endsWith d.file a.fileEnd

/-- What is told of the first error in a document, with its place if that is known. -/
def syntaxError (place : Option Point) : String :=
  match place with
  | some p => "syntax error at " ++ toString (p.line + 1) ++ ":" ++ toString (p.column + 1)
  | none => "syntax error"

/-- A document that is not well formed. A grammar does not tell where its first error is: that
depends on how a parser goes on behind an error. -/
def malformed (d : Document) : Failure := .parseFailure d.file (syntaxError none)

def orSyntaxError (d : Document) (t : Option TokenTree) : Except Failure TokenTree :=
  match t with
  | some t => .ok t
  | none => .error (malformed d)

/-- The symbols of a document in one of the languages that have them. -/
def symbols (d : Document) : Except Failure (List Symbol) :=
  if Analysis.Symbols.languages.any d.isLanguage then
    match Analysis.Symbols.symbols? d.language d.text with
    | some symbols => .ok symbols
    | none => .error (malformed d)
  else .error (.unsupportedLanguage d.language)

/-- The tree of a document with columns counted in bytes. -/
def read (a : Analyzer) (d : Document) (settings : LanguageSettings) :
    Except Failure TokenTree :=
  match a with
  | .php => orSyntaxError d (Analysis.Php.tree? d.text settings)
  | .java => orSyntaxError d (Analysis.Java.tree? d.text settings)
  | .script =>
    let dialect := Analysis.Script.dialectOf d.language (d.extension? == some "tsx")
    orSyntaxError d (Analysis.Script.tree? d.text dialect settings)
  | .cfamily => (symbols d).map (fun symbols => Analysis.CFamily.tree d.text symbols settings)
  | .python => orSyntaxError d (Analysis.Python.tree? d.text)
  | .rules => .ok (Analysis.Rules.tree d.text)
  | .items => .ok (Analysis.Items.tree d.text)
  | .css => orSyntaxError d (Analysis.Css.tree? d.text)
  | .less => (Analysis.Less.tree d.text).mapError (Failure.parseFailure d.file)
  | .rapid => .ok (Analysis.Rapid.tree d.text)
  | .json => orSyntaxError d (Analysis.Json.tree? d.text)

/-- The tree of a document. -/
def analyze (a : Analyzer) (d : Document) (c : Config) : Except Failure TokenTree := do
  let t ← a.read d (c.language d.language)
  return if Text.isAscii d.text then t else t.useCharColumns d.text

end Analyzer

end CodeOutline
