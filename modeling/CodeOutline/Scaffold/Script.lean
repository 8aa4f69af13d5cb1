import CodeOutline.Scaffold.Basic

/-!
New TypeScript and JavaScript files. A JavaScript class has no types, no namespace block
and names no interface.
-/

set_option autoImplicit false

namespace CodeOutline.Scaffold.Script

def separator : String := "."

/-- The extensions to choose from. -/
def extensions : Mode → List String
  | .interface => []
  | .implementation => ["ts", "js"]

def documentName (target : String) (mode : Mode) (extension : Option String) : String :=
  let (name, _) := Name.splitTarget target separator none
  match mode with
  | .interface => "I" ++ name ++ ".ts"
  | .implementation => name ++ "." ++ extension.getD "ts"

/-- Everything but a JavaScript class is typed. -/
def isTyped (mode : Mode) (options : Options) : Bool :=
  !mode.hasBodies || options.extension != some "js"

def typeNote (typed : Bool) (type : Option String) : String :=
  match (if typed then typeShown? type [] else none) with
  | some type => ": " ++ type
  | none => ""

def argument (mode : Mode) (typed : Bool) (v : VarToken) : String :=
  let value := Label.shown? v.value
  let name := if typed then v.name else Text.dropRight (· == '?') v.name
  let optional := typed && value.isSome && !mode.hasBodies && !Text.endsWith name "?"
  name ++ (if optional then "?" else "") ++ typeNote typed v.type ++
  (match (if mode.hasBodies then value else none) with
  | some value => " = " ++ value
  | none => "")

def signature (mode : Mode) (typed : Bool) (m : MethodToken) : String :=
  (if mode.hasBodies && typed then "public " else "") ++
  (if mode.hasBodies && m.isStatic then "static " else "") ++
  m.name ++ "(" ++ ", ".intercalate (m.arguments.map (argument mode typed)) ++ ")" ++
  typeNote typed m.type

def property (mode : Mode) (typed : Bool) (p : PropertyToken) : String :=
  (if mode.hasBodies then
    (if typed then "public " else "") ++ (if p.isStatic then "static " else "")
  else "") ++
  (if p.isReadonly && typed then "readonly " else "") ++ p.name ++ typeNote typed p.type ++
  (match (if mode.hasBodies then Label.shown? p.value else none) with
  | some value => " = " ++ value
  | none => "") ++ ";"

def methodLines (indent : String) (source : EntityToken) (mode : Mode) (typed : Bool) :
    List String :=
  let signatures :=
    ((methods source mode).filter (fun m => mode.hasBodies || m.name != "constructor")).map
      (signature mode typed)
  if mode.hasBodies then
    blocks indent "throw new Error(\"Not implemented\");"
      (signatures.map (fun s => [s ++ " \x7b"]))
  else stubs indent signatures

def generate (target : String) (source : EntityToken) (kind : EntityKind) (mode : Mode)
    (options : Options) : List Edit :=
  let typed := isTyped mode options
  let (name, asked) := Name.splitTarget target separator options.space
  let space := if typed then asked else none
  let indent := if space.isSome then pad else ""
  let word := if options.spaceWord.isEmpty then "namespace" else options.spaceWord
  let opening := match space with
    | some ns => ["export " ++ word ++ " " ++ ns ++ " \x7b"]
    | none => []
  let implemented := if typed then implemented? source kind mode separator else none
  let properties := source.properties.filter (·.visibility = .pub)
  number (
    (if options.strict then ["\"use strict\";", ""] else []) ++ opening ++
    [indent ++ "export " ++ (if mode.hasBodies then "class" else "interface") ++ " " ++ name ++
      (match implemented with
      | some interface => " implements " ++ interface
      | none => "") ++ " \x7b"] ++
    separate (properties.map (fun p => indent ++ pad ++ property mode typed p))
      (methodLines (indent ++ pad) source mode typed) ++
    [indent ++ "\x7d"] ++ (if space.isSome then ["\x7d"] else []))

end CodeOutline.Scaffold.Script
