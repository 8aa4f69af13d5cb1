import CodeOutline.Scaffold.Basic

/-!
What the command line can ask for, and what can be wrong with it.
-/

set_option autoImplicit false

namespace CodeOutline.Command

structure OutlineRequest where
  path : String
  config : Option String := none
  format : String := "pretty"
deriving DecidableEq, Repr

structure GenerateRequest where
  file : String
  mode : Scaffold.Mode := .interface
  entity : Option String := none
  name : Option String := none
  directory : String := ""
  extension : Option String := none
  workspace : Option String := none
  language : Option String := none
  config : Option String := none
deriving DecidableEq, Repr

structure InitRequest where
  output : String := "outliner.yaml"
  template : String := "default"
  isList : Bool := false
deriving DecidableEq, Repr

inductive Request
  | outline (r : OutlineRequest)
  | generate (r : GenerateRequest)
  | init (r : InitRequest)
deriving DecidableEq, Repr

/-- Why the command line asks for nothing that can be done. -/
inductive Usage
  | displayHelp | displayVersion | displayHelpOnMissing | missingSubcommand | invalidSubcommand
  | unknownArgument | missingRequiredArgument | invalidValue | argumentConflict | tooManyValues
deriving DecidableEq, Repr

namespace Usage

def word : Usage → String
  | .displayHelp => "DisplayHelp"
  | .displayVersion => "DisplayVersion"
  | .displayHelpOnMissing => "DisplayHelpOnMissingArgumentOrSubcommand"
  | .missingSubcommand => "MissingSubcommand"
  | .invalidSubcommand => "InvalidSubcommand"
  | .unknownArgument => "UnknownArgument"
  | .missingRequiredArgument => "MissingRequiredArgument"
  | .invalidValue => "InvalidValue"
  | .argumentConflict => "ArgumentConflict"
  | .tooManyValues => "TooManyValues"

def exitCode : Usage → Nat
  | .displayHelp | .displayVersion => 0
  | _ => 2

end Usage

end CodeOutline.Command
