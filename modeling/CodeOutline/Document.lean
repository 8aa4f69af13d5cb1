import CodeOutline.Path

/-!
Source documents, and the language that a file extension stands for.
-/

set_option autoImplicit false

namespace CodeOutline

structure Document where
  language : String
  file : String
  text : String
  /-- There are changes that have not been saved. -/
  dirty : Bool := false
deriving DecidableEq, Repr, Inhabited

namespace Document

def isLanguage (d : Document) (id : String) : Bool :=
  Text.lowerAscii d.language == Text.lowerAscii id

def extension? (d : Document) : Option String := Path.extension? d.file

def sameFile (a b : Document) : Bool := a.file == b.file

end Document

def extensionTable : List (String × List String) := [
  ("php", ["php", "phtml"]), ("java", ["java"]), ("typescript", ["ts", "mts", "cts"]),
  ("typescriptreact", ["tsx"]), ("javascript", ["js", "mjs", "cjs"]),
  ("javascriptreact", ["jsx"]), ("python", ["py", "pyi"]), ("c", ["c", "h"]),
  ("cpp", ["cpp", "cc", "cxx", "hpp", "hh", "hxx"]), ("csharp", ["cs"]),
  ("openhab", ["rules", "items"]), ("css", ["css"]), ("less", ["less"]), ("json", ["json"]),
  ("rapid", ["mod", "modx", "sys", "sysx", "prg", "prgx"])]

def languageOfExtension? (extension : String) : Option String :=
  (extensionTable.find? (fun (_, extensions) =>
    extensions.contains (Text.lowerAscii extension))).map (·.1)

def knownExtensions : List String := extensionTable.flatMap (·.2)

end CodeOutline
