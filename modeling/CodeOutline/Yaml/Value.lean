/-!
Values of YAML documents, with questions that settings ask of them. A scalar keeps its text;
what it stands for is decided by who asks.
-/

set_option autoImplicit false

namespace CodeOutline.Yaml

inductive Value
  /-- A text, whether it stood there without quotes, and its tag. -/
  | scalar (text : String) (isPlain : Bool) (tag : Option String)
  | list (items : List Value)
  | map (entries : List (Value × Value))
deriving Repr, Inhabited, BEq

namespace Value

def blank : Value := .scalar "" true none

def isBlank : Value → Bool
  | .scalar text isPlain _ => isPlain && text.isEmpty
  | _ => false

def tagged (tag : Option String) : Value → Value
  | .scalar text isPlain own => .scalar text isPlain (own.orElse (fun _ => tag))
  | v => v

def text? : Value → Option String
  | .scalar text _ _ => some text
  | _ => none

def bool? : Value → Option Bool
  | .scalar text true _ =>
    if ["true", "True", "TRUE"].contains text then some true
    else if ["false", "False", "FALSE"].contains text then some false
    else none
  | _ => none

def items? : Value → Option (List Value)
  | .list items => some items
  | v => if v.isBlank then some [] else none

def entries? : Value → Option (List (Value × Value))
  | .map entries => some entries
  | v => if v.isBlank then some [] else none

private def nullWords : List String := ["null", "Null", "NULL", "~"]

/-- What may be missing: nothing written, or a word for null without quotes. A tag that asks
for null admits only such a word, and any other tag makes a value of every scalar. -/
def optional? : Value → Option (Option Value)
  | .scalar text true none =>
    if text.isEmpty || nullWords.contains text then some none
    else some (some (.scalar text true none))
  | .scalar text true (some "!!null") => if nullWords.contains text then some none else none
  | v => some (some v)

/-- The entries of a record, by the names of their keys. Entries of other names are passed
over, and no name may stand twice. -/
def fields? (names : List String) (v : Value) : Option (List (String × Value)) := do
  let entries ← v.entries?
  let pairs ← entries.mapM (fun (key, value) => key.text?.map (·, value))
  let known := pairs.filter (fun (name, _) => names.contains name)
  if (known.map (·.1)).eraseDups.length = known.length then some known else none

def fieldOr {α : Type} (fields : List (String × Value)) (name : String)
    (read : Value → Option α) (default : α) : Option α :=
  match fields.lookup name with
  | some v => read v
  | none => some default

end Value

end CodeOutline.Yaml
