import CodeOutline.Text.Comment
import CodeOutline.Text.Letter
import CodeOutline.Token.Builder

/-!
The outline of robot programs. Every line is tested against a small set of declarations; the
records and routines that follow a module line belong to that module.
-/

set_option autoImplicit false

namespace CodeOutline.Analysis.Rapid

def noType : String := "void"

/-- A declaration line. -/
inductive Declaration
  | routine (type : Option String) (name : String) (arguments : String)
  | trap (type : Option String) (name : String)
  | record (name : String)
  | module (name : String)
deriving DecidableEq, Repr

def isWordChar (c : Char) : Bool := Text.isLetter c || c.isDigit || c == '_'

def dropBlank (cs : List Char) : List Char :=
  match cs with
  | c :: rest => if Text.isBlank c then rest else cs
  | [] => []

/-- A type and a name. The type is a first word with one blank behind it, when something
follows. -/
def typeAndName (body : List Char) : Option String × String :=
  let word := body.takeWhile isWordChar
  match word, body.drop word.length with
  | _ :: _, c :: d :: rest =>
    if Text.isBlank c then
      (some (String.ofList word), String.ofList (Text.trimChars (d :: rest)))
    else (none, String.ofList (Text.trimChars body))
  | _, _ => (none, String.ofList (Text.trimChars body))

def afterRoutineWord? (cs : List Char) : Option (List Char) :=
  let keyword (cs : List Char) : Option (List Char) :=
    (Text.dropStart? "PROC".toList cs).orElse (fun _ => Text.dropStart? "FUNC".toList cs)
  let spaced (cs : List Char) : Option (List Char) :=
    (keyword (dropBlank cs)).orElse (fun _ => keyword cs)
  ((Text.dropStart? "LOCAL".toList cs).bind spaced).orElse (fun _ => spaced cs)

/-- The part before the first opening parenthesis and the part up to the closing one at the
end. -/
def callParts? (cs : List Char) : Option (List Char × List Char) := do
  let (before, rest) ← Text.cutFirst? ['('] cs
  let inside ← Text.dropEnd? [')'] rest
  some (before, inside)

def routine? (cs : List Char) : Option Declaration := do
  let rest ← afterRoutineWord? cs
  let (body, arguments) ← callParts? (dropBlank rest)
  let (type, name) := typeAndName body
  some (.routine type name (String.ofList arguments))

def trap? (cs : List Char) : Option Declaration := do
  let rest ← Text.dropStart? "TRAP".toList cs
  let body := dropBlank rest
  if body.isEmpty || body.contains '(' then none
  else
    let (type, name) := typeAndName body
    some (.trap type name)

def record? (cs : List Char) : Option Declaration := do
  let rest ← Text.dropStart? "RECORD".toList cs
  let name := dropBlank rest
  if !name.isEmpty && name.all isWordChar then some (.record (String.ofList name)) else none

def module? (cs : List Char) : Option Declaration := do
  let rest ← Text.dropStart? "MODULE".toList cs
  match rest with
  | c :: rest =>
    if Text.isBlank c then
      some (.module (String.ofList (Text.trimChars (rest.takeWhile (· != '(')))))
    else none
  | [] => none

/-- The declaration of a trimmed line without its comment. -/
def declaration? (line : String) : Option Declaration :=
  let cs := line.toList
  (routine? cs).orElse (fun _ => (trap? cs).orElse (fun _ =>
    (record? cs).orElse (fun _ => module? cs)))

def withoutComment (line : String) : String := String.ofList (line.toList.takeWhile (· != '!'))

/-- Arguments between commas: a type, and the name, which may be the same word. -/
def arguments (written : String) : List VarToken :=
  let parts := ((Text.splitAt ',' written).map Text.trim).filter (fun a => !a.isEmpty)
  parts.map (fun a =>
    let type := (Text.words a).head?.getD a
    { name := ((Text.words a)[1]?).getD type, type := some type })

def addLine (t : TokenTree) (line : String × Nat) : TokenTree :=
  let (raw, number) := line
  let code := Text.trim (withoutComment raw)
  let visibility : Visibility := if Text.contains code "LOCAL" then .priv else .pub
  let method (type : Option String) (name : String) : MethodToken :=
    { name, span := some (Text.placeInLine number raw name), type := some (type.getD noType)
      visibility }
  match declaration? code with
  | none => t
  | some (.module name) =>
    if name.isEmpty then t
    else t.addEntity .class { name, span := some (Text.placeInLine number raw name) }
  | some (.record name) =>
    t.updateLastClass (·.addProperty {
      name, span := some (Text.placeInLine number raw name), visibility })
  | some (.routine type name written) =>
    if name.isEmpty then t
    else t.updateLastClass
      (·.addMethod { method type name with arguments := arguments written })
  | some (.trap type name) =>
    if name.isEmpty then t else t.addFunction { method type name with isStatic := true }

/-- The outline of a document. -/
def tree (text : String) : TokenTree := (Text.lines text).zipIdx.foldl addLine .empty

end CodeOutline.Analysis.Rapid
