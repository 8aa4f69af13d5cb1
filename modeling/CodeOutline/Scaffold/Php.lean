import CodeOutline.Scaffold.Basic

/-!
New PHP files: an optional strict mode line, namespace and import, then one interface or
class.
-/

set_option autoImplicit false

namespace CodeOutline.Scaffold.Php

def separator : String := "\\"

def silent : List String := ["mixed"]

def documentName (target : String) (mode : Mode) : String :=
  let (name, _) := Name.splitTarget target separator none
  match mode with
  | .interface => name ++ "Interface.php"
  | .implementation => name ++ ".php"

def argument (v : VarToken) : String :=
  let isSign (c : Char) : Bool := c == '&' || c == '.'
  let signs := v.name.toList.takeWhile isSign
  let bare := v.name.toList.dropWhile isSign
  (match typeShown? v.type silent with
  | some type => type ++ " "
  | none => "") ++
  String.ofList (signs ++ ['$'] ++ bare) ++
  (match Label.shown? v.value with
  | some value => " = " ++ value
  | none => "")

def signature (mode : Mode) (m : MethodToken) : String :=
  "public " ++ (if mode.hasBodies && m.isReadonly then "final " else "") ++
  (if m.isStatic then "static " else "") ++
  "function " ++ m.name ++ "(" ++ ", ".intercalate (m.arguments.map argument) ++ ")" ++
  (match typeShown? m.type silent with
  | some type => ": " ++ type
  | none => "")

def heading (name : String) (source : EntityToken) : Mode → String
  | .interface => "interface " ++ name
  | .implementation =>
    (if source.isReadonly then "final " else if source.isAbstract then "abstract " else "") ++
    "class " ++ name

def constant (c : VarToken) : String :=
  pad ++ "const " ++ c.name ++
  (match c.value with
  | some value => " = " ++ value
  | none => "") ++ ";"

def methodLines (source : EntityToken) (mode : Mode) : List String :=
  let signatures := (methods source mode).map (signature mode)
  if mode.hasBodies then
    blocks pad "throw new \\BadMethodCallException(\"$\x7b__METHOD__\x7d Not implemented\");"
      (signatures.map (fun s => [s, "\x7b"]))
  else stubs pad signatures

def generate (target : String) (source : EntityToken) (kind : EntityKind) (mode : Mode)
    (options : Options) : List Edit :=
  let (name, space) := Name.splitTarget target separator options.space
  let block (line : Option String) : List String :=
    match line with
    | some line => [line, ""]
    | none => []
  let imported :=
    if mode.hasBodies then sourceImport? source separator space options else none
  number (
    ["<?php"] ++ (if options.strict then ["declare(strict_types=1);"] else []) ++ [""] ++
    block (space.map (fun ns => "namespace " ++ ns ++ ";")) ++
    block (imported.map (fun full => "use " ++ full ++ ";")) ++
    [heading name source mode ++
      (match implemented? source kind mode separator with
      | some interface => " implements " ++ interface
      | none => ""), "\x7b"] ++
    separate ((publicOnly source.constants).map constant) (methodLines source mode) ++
    ["\x7d"])

end CodeOutline.Scaffold.Php
