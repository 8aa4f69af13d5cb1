import CodeOutline.Glob.Basic
import CodeOutline.Name.Qualified
import CodeOutline.Outline.Label
import CodeOutline.Path

/-!
The settings of a workspace. Every setting has a default.
-/

set_option autoImplicit false

namespace CodeOutline

/-- The settings of one language. -/
structure LanguageSettings where
  position : NamespacePosition := .full
  /-- The word that opens a namespace block in new files. -/
  spaceType : Option String := none
deriving DecidableEq, Repr, Inhabited

def LanguageSettings.spaceWord (s : LanguageSettings) : String := s.spaceType.getD "namespace"

/-- Files that match the pattern are read as the language. -/
structure FileAssociation where
  pattern : String
  language : String
deriving DecidableEq, Repr, Inhabited

structure Config where
  readonlyMark : String := "®"
  abstractMark : String := "Ⓐ"
  /-- Saving refreshes the outline even when the document has errors. -/
  updateOnError : Bool := true
  /-- The providers in use; none named means all. -/
  providers : List String := []
  languages : List (String × LanguageSettings) := []
  associations : List FileAssociation := []
  excluded : List String := []
deriving DecidableEq, Repr, Inhabited

inductive ConfigError
  | yaml
  | glob (message : String)
  | io (message : String)
  | invalid (message : String)
deriving DecidableEq, Repr

def ConfigError.message : ConfigError → String
  | .yaml => "malformed settings"
  | .glob message | .io message | .invalid message => message

namespace Config

def markers (c : Config) : Markers := ⟨c.readonlyMark, c.abstractMark⟩

def knownProviders : List String :=
  ["php", "java", "javascript", "python", "cfamily", "openhab", "css", "less", "rapid", "json"]

private def checkProvider (provider : String) : Except ConfigError Unit :=
  if knownProviders.contains provider then .ok ()
  else .error (.invalid ("unknown provider \"" ++ provider ++ "\" (known: " ++
    ", ".intercalate knownProviders ++ ")"))

private def checkPattern (a : FileAssociation) : Except ConfigError Unit :=
  match Glob.parse a.pattern with
  | .ok _ => .ok ()
  | .error fault => .error (.glob (Glob.faultMessage a.pattern fault))

/-- Refuses empty marks, unknown providers and malformed association patterns. -/
def validate (c : Config) : Except ConfigError Unit := do
  if c.readonlyMark.isEmpty then throw (.invalid "readonly_character must not be empty")
  if c.abstractMark.isEmpty then throw (.invalid "abstract_character must not be empty")
  c.providers.forM checkProvider
  c.associations.forM checkPattern

private theorem bind_eq_ok_iff {first second : Except ConfigError Unit} :
    (first >>= fun _ => second) = .ok () ↔ first = .ok () ∧ second = .ok () := by
  cases first <;> simp [bind, Except.bind]

private theorem throw_or_eq_ok_iff {refused : Bool} {fault : ConfigError}
    {rest : Unit → Except ConfigError Unit} :
    (if refused = true then throw fault >>= rest else rest ()) = .ok () ↔
      refused = false ∧ rest () = .ok () := by
  cases refused <;> simp [throw, throwThe, MonadExceptOf.throw, bind, Except.bind]

private theorem forM_eq_ok_iff {α : Type} {check : α → Except ConfigError Unit} (as : List α) :
    as.forM check = .ok () ↔ ∀ a ∈ as, check a = .ok () := by
  induction as with
  | nil => simp [List.forM, pure, Except.pure]
  | cons a as ih =>
    change (check a >>= fun _ => as.forM check) = .ok () ↔ _
    rw [bind_eq_ok_iff, ih, List.forall_mem_cons]

private theorem checkProvider_eq_ok_iff (provider : String) :
    checkProvider provider = .ok () ↔ provider ∈ knownProviders := by
  unfold checkProvider
  split <;> simp_all

private theorem checkPattern_eq_ok_iff (a : FileAssociation) :
    checkPattern a = .ok () ↔ ∃ tokens, Glob.parse a.pattern = .ok tokens := by
  unfold checkPattern
  split <;> simp_all

theorem validate_eq_ok_iff (c : Config) :
    c.validate = .ok () ↔ c.readonlyMark ≠ "" ∧ c.abstractMark ≠ "" ∧
      (∀ provider ∈ c.providers, provider ∈ knownProviders) ∧
      ∀ a ∈ c.associations, ∃ tokens, Glob.parse a.pattern = .ok tokens := by
  unfold validate
  simp only [throw_or_eq_ok_iff, bind_eq_ok_iff, forM_eq_ok_iff, checkProvider_eq_ok_iff,
    checkPattern_eq_ok_iff, String.isEmpty_eq_false_iff, ne_eq]

/-- The settings of a language id, found under its small letters. -/
def language (c : Config) (id : String) : LanguageSettings :=
  (c.languages.lookup (Text.lowerAscii id)).getD {}

def allows (c : Config) (provider : String) : Bool :=
  c.providers.isEmpty || c.providers.contains provider

def associated? (c : Config) (path : RawText) : Option String :=
  let name := ((Path.fileName? path).map RawText.lossy).getD ""
  (c.associations.find? (fun a =>
    Glob.isMatch a.pattern path.lossy || Glob.isMatch a.pattern name)).map (·.language)

/-- Some exclusion pattern matches the path. -/
def excludes (c : Config) (path : RawText) : Bool :=
  c.excluded.any (fun pattern => Glob.isMatch pattern path.lossy)

end Config

end CodeOutline
