import CodeOutline.Scaffold.Basic

/-!
New Java files: an optional package and import, then one interface or class.
-/

set_option autoImplicit false

namespace CodeOutline.Scaffold.Java

def separator : String := "."

def documentName (target : String) : String :=
  (Name.splitTarget target separator none).1 ++ ".java"

def argument (v : VarToken) : String :=
  match v.type with
  | some type => type ++ " " ++ v.name
  | none => v.name

def signature (mode : Mode) (m : MethodToken) : String :=
  "public " ++
  (if mode.hasBodies && m.isStatic then "static " else "") ++
  (if mode.hasBodies && m.isReadonly && !m.isAbstract then "final " else "") ++
  (match typeShown? m.type [] with
  | some type => type ++ " "
  | none => "") ++
  m.name ++ "(" ++ ", ".intercalate (m.arguments.map argument) ++ ")"

def heading (name : String) (source : EntityToken) (mode : Mode) : String :=
  source.visibility.word ++ " " ++
  (if mode.hasBodies then
    (if source.isAbstract then "abstract " else "") ++
    (if source.isReadonly then "final " else "") ++ "class "
  else "interface ") ++ name

def constant (c : VarToken) : String :=
  pad ++ "public static final " ++ c.type.getD "Object" ++ " " ++ c.name ++ " = " ++
    c.value.getD "null" ++ ";"

def methodLines (source : EntityToken) (mode : Mode) : List String :=
  let signatures := ((methods source mode).filter (·.type.isSome)).map (signature mode)
  if mode.hasBodies then
    blocks pad "throw new java.lang.IllegalStateException(\"Not implemented\");"
      (signatures.map (fun s => [s ++ " \x7b"]))
  else stubs pad signatures

def generate (target : String) (source : EntityToken) (kind : EntityKind) (mode : Mode)
    (options : Options) : List Edit :=
  let (name, space) := Name.splitTarget target separator options.space
  let block (line : Option String) : List String :=
    match line with
    | some line => [line, ""]
    | none => []
  let imported :=
    if mode.hasBodies then sourceImport? source separator space options else none
  number (
    block (space.map (fun ns => "package " ++ ns ++ ";")) ++
    block (imported.map (fun full => "import " ++ full ++ ";")) ++
    [heading name source mode ++
      (match implemented? source kind mode separator with
      | some interface => " implements " ++ interface
      | none => "") ++ " \x7b"] ++
    separate ((publicOnly source.constants).map constant) (methodLines source mode) ++
    ["\x7d"])

end CodeOutline.Scaffold.Java
