import CodeOutline.Text.Blank
import CodeOutline.Token.Basic

/-!
Modifier words in front of a declaration.
-/

set_option autoImplicit false

namespace CodeOutline

structure Modifiers where
  visibility : Visibility := .pub
  /-- Some visibility word was written. -/
  isExplicit : Bool := false
  isStatic : Bool := false
  isAbstract : Bool := false
  /-- Final or sealed. -/
  isFinal : Bool := false
  isReadonly : Bool := false
deriving DecidableEq, Repr, Inhabited

namespace Modifiers

/-- The effect of one word; words of no meaning have none, and the last visibility wins. -/
def add (m : Modifiers) (word : String) : Modifiers :=
  match Text.lowerAscii word with
  | "static" => { m with isStatic := true }
  | "abstract" => { m with isAbstract := true }
  | "final" | "sealed" => { m with isFinal := true }
  | "readonly" => { m with isReadonly := true }
  | other =>
    match Visibility.ofWord? other with
    | some v => { m with visibility := v, isExplicit := true }
    | none => m

def ofWords (words : List String) : Modifiers := words.foldl add {}

/-- The modifiers among the words of a text. -/
def read (text : String) : Modifiers := ofWords (Text.words text)

end Modifiers

end CodeOutline
