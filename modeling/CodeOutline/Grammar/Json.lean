import CodeOutline.Syntax.Scan

/-!
The grammar of JSON documents: any number of values, with comments allowed.
-/

set_option autoImplicit false

namespace CodeOutline.Grammar.Json

open Syntax

inductive Name
  | value

def isPlain (c : Char) : Bool := c != '\\' && c != '"' && c != '\n' && c.toNat != 0

def isEscaped (c : Char) : Bool := "\"\\/bfnrtu".toList.contains c

def charScan : Scan :=
  Scan.first [Scan.one isPlain, Scan.seq (Scan.text "\\") (Scan.one isEscaped)]

def stringScan : Scan := Scan.all [Scan.text "\"", Scan.many charScan, Scan.text "\""]

def exponentScan : Scan :=
  Scan.all [Scan.one (fun c => c == 'e' || c == 'E'), Scan.opt (Scan.text "-"),
    Scan.run1 Scan.digit]

def numberScan : Scan :=
  Scan.all [Scan.opt (Scan.text "-"),
    Scan.first [Scan.text "0", Scan.run1 Scan.digit],
    Scan.opt (Scan.seq (Scan.text ".") (Scan.run Scan.digit)), Scan.opt exponentScan]

def string : Rule Name := .leaf "string" stringScan

def pair : Rule Name :=
  .node "pair" (Rule.sequence [.field "key" string, .sign ":", .field "value" (.call .value)])

def rules : Name → Rule Name
  | .value => Rule.choice [
      .node "object" (Rule.sequence [.sign "\x7b", Rule.commas0 pair, .sign "\x7d"]),
      .node "array" (Rule.sequence [.sign "[", Rule.commas0 (.call .value), .sign "]"]),
      string, .leaf "number" numberScan, .leaf "true" (Scan.text "true"),
      .leaf "false" (Scan.text "false"), .leaf "null" (Scan.text "null")]

def grammar : Syntax.Grammar Name where
  rule := rules
  isWordChar := Char.isAlphanum
  between := fun _ =>
    Scan.between [("comment", Scan.slashComment), ("comment", Scan.blockComment)]

def read? (text : List Char) : Option Node :=
  grammar.read? "document" (.many (.call .value)) text

end CodeOutline.Grammar.Json
