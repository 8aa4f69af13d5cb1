import CodeOutline.Scaffold.Java
import CodeOutline.Scaffold.Php
import CodeOutline.Scaffold.Script
import CodeOutline.Text.Blank

/-!
The languages in which new files can be written.
-/

set_option autoImplicit false

namespace CodeOutline.Scaffold

inductive Language
  | php | java | script
deriving DecidableEq, Repr

namespace Language

/-- The language for a document's language id, in any spelling of capitals. -/
def ofId? (id : String) : Option Language :=
  match Text.lowerAscii id with
  | "php" => some .php
  | "java" => some .java
  | "typescript" | "javascript" | "typescriptreact" | "javascriptreact" => some .script
  | _ => none

/-- The language id of the files it writes. -/
def id : Language → String
  | .php => "php"
  | .java => "java"
  | .script => "typescript"

/-- What stands between a namespace and a name. -/
def separator : Language → String
  | .php => Php.separator
  | .java => Java.separator
  | .script => Script.separator

/-- The file extensions to choose from; none when the file name is fixed. -/
def extensions : Language → Mode → List String
  | .script, mode => Script.extensions mode
  | _, _ => []

/-- The name of the file for the new entity. -/
def documentName (l : Language) (target : String) (mode : Mode) (extension : Option String) :
    String :=
  match l with
  | .php => Php.documentName target mode
  | .java => Java.documentName target
  | .script => Script.documentName target mode extension

/-- The lines of the new file. -/
def generate (l : Language) (target : String) (source : EntityToken) (kind : EntityKind)
    (mode : Mode) (options : Options) : List Edit :=
  match l with
  | .php => Php.generate target source kind mode options
  | .java => Java.generate target source kind mode options
  | .script => Script.generate target source kind mode options

end Language

end CodeOutline.Scaffold
