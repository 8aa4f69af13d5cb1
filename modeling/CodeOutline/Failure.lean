/-!
What can go wrong between a document and its outline or a new file.
-/

set_option autoImplicit false

namespace CodeOutline

inductive Failure
  | unsupportedLanguage (id : String)
  | parseFailure (file message : String)
  | noEntities (file : String)
  | ambiguousSelection (names : List String)
  | unknownEntity (name : String)
  | destinationConflict (path : String)
  | noWorkspace
  | emptyName
  | generationUnsupported (id : String)
  | io (message : String)
deriving DecidableEq, Repr, Inhabited

namespace Failure

def message : Failure → String
  | .unsupportedLanguage id => "no analyzer available for language \"" ++ id ++ "\""
  | .parseFailure file message => "failed to parse " ++ file ++ ": " ++ message
  | .noEntities file => "no classes, traits or interfaces found in " ++ file
  | .ambiguousSelection names =>
    "several entities match, select one of: " ++ ", ".intercalate names
  | .unknownEntity name => "entity \"" ++ name ++ "\" not found in the current outline"
  | .destinationConflict path => "file \"" ++ path ++ "\" already exists"
  | .noWorkspace => "entity generation requires an open workspace"
  | .emptyName => "entity name cannot be empty"
  | .generationUnsupported id =>
    "entity generation is not supported for language \"" ++ id ++ "\""
  | .io message => message

def isTransient : Failure → Bool
  | .unsupportedLanguage _ | .parseFailure _ _ => true
  | _ => false

end Failure

end CodeOutline
