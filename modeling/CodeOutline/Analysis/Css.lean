import CodeOutline.Grammar.Css
import CodeOutline.Token.Builder

/-!
The outline of a style sheet: rule sets under their selectors, and those of media blocks
under the block's condition.
-/

set_option autoImplicit false

namespace CodeOutline.Analysis.Css

open Syntax

def declaration? (n : Node) : Option VarToken :=
  (n.first? "property_name").map (fun property =>
    let value := match Text.cutFirst? [':'] n.chars with
      | some (_, v) => Text.dropRight (· == ';') (Text.trim (String.ofList v))
      | none => ""
    { name := property.text, span := some property.span, value := some (Text.collapse value) })

def ruleSet? (n : Node) : Option (String × List VarToken) :=
  (n.first? "selectors").map (fun selectors =>
    (",".intercalate (selectors.named.map (fun s => Text.collapse s.text)),
      match n.first? "block" with
      | some block => (block.named.filter (·.kind == "declaration")).filterMap declaration?
      | none => []))

def dropAll (start : List Char) (fuel : Nat) (cs : List Char) : List Char :=
  match fuel, Text.dropStart? start cs with
  | fuel + 1, some rest => dropAll start fuel rest
  | _, _ => cs

/-- The text between the keyword of a media block and its body. -/
def condition (n block : Node) : String :=
  let head := (Text.trim (n.textBefore block)).toList
  Text.collapse (String.ofList (dropAll "@media".toList head.length head))

def addItem (t : TokenTree) (n : Node) : TokenTree :=
  match n.kind with
  | "rule_set" =>
    match ruleSet? n with
    | some (selector, declarations) => t.addDeclarations selector declarations
    | none => t
  | "media_statement" =>
    match n.first? "block" with
    | some block =>
      let sets := (block.named.filter (·.kind == "rule_set")).filterMap ruleSet?
      sets.foldl (fun t (selector, declarations) =>
        t.addMediaDeclarations (condition n block) selector declarations) t
    | none => t
  | _ => t

/-- The outline of a style sheet, nothing when it is not well formed. -/
def tree? (text : String) : Option TokenTree :=
  (Grammar.Css.read? text.toList).map (fun root => root.named.foldl addItem .empty)

end CodeOutline.Analysis.Css
