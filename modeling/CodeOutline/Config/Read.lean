import CodeOutline.Config
import CodeOutline.FileSystem.Basic
import CodeOutline.Text.Blank
import CodeOutline.Yaml.Document

/-!
Settings written in YAML. What is not written has its default, and an empty text is the default
configuration. Settings come from a named file, or from the first of the usual files that is there.
-/

set_option autoImplicit false

namespace CodeOutline

open Yaml (Value)

namespace Config

private def texts? (v : Value) : Option (List String) := do
  let items ← v.items?
  items.mapM Value.text?

private def position? (v : Value) : Option NamespacePosition :=
  match v.text? with
  | some "full" => some .full
  | some "suffix" => some .suffix
  | some "none" => some .none
  | _ => none

private def spaceType? (v : Value) : Option (Option String) :=
  match v.optional? with
  | none => none
  | some none => some none
  | some (some v) => v.text?.map some

private def settings? (v : Value) : Option LanguageSettings := do
  let fields ← v.fields? ["namespace_position", "default_namespace_type"]
  let position ← Value.fieldOr fields "namespace_position" position? .full
  let spaceType ← Value.fieldOr fields "default_namespace_type" spaceType? none
  some { position, spaceType }

private def association? (v : Value) : Option FileAssociation := do
  let fields ← v.fields? ["pattern", "language"]
  let pattern ← (fields.lookup "pattern").bind Value.text?
  let language ← (fields.lookup "language").bind Value.text?
  some { pattern, language }

private def languages? (v : Value) : Option (List (String × LanguageSettings)) := do
  let entries ← v.entries?
  let read ← entries.mapM (fun (key, value) => do
    let id ← key.text?
    let settings ← settings? value
    some (id, settings))
  some (read.foldl (fun found entry =>
    found.filter (fun other => other.1 != entry.1) ++ [entry]) [])

private theorem nodup_replace {entries : List (String × LanguageSettings)}
    (entry : String × LanguageSettings) (distinct : (entries.map (·.1)).Nodup) :
    ((entries.filter (fun other => other.1 != entry.1) ++ [entry]).map (·.1)).Nodup := by
  rw [List.map_append, List.nodup_append]
  refine ⟨distinct.sublist (List.filter_sublist.map _), by simp, ?_⟩
  intro id kept other last
  obtain ⟨old, found, rfl⟩ := List.mem_map.1 kept
  obtain rfl : other = entry.1 := by simpa using last
  simpa using (List.mem_filter.1 found).2

private theorem nodup_of_languages? {v : Value} {languages : List (String × LanguageSettings)}
    (found : languages? v = some languages) : (languages.map (·.1)).Nodup := by
  have folded : ∀ (read entries : List (String × LanguageSettings)), (entries.map (·.1)).Nodup →
      ((read.foldl (fun found entry =>
        found.filter (fun other => other.1 != entry.1) ++ [entry]) entries).map (·.1)).Nodup := by
    intro read
    induction read with
    | nil => exact fun _ distinct => distinct
    | cons entry read ih => exact fun _ distinct => ih _ (nodup_replace entry distinct)
  simp only [languages?, Option.bind_eq_bind, Option.bind_eq_some_iff] at found
  obtain ⟨entries, -, read, -, found⟩ := found
  cases found
  exact folded read [] List.nodup_nil

private def associations? (v : Value) : Option (List FileAssociation) := do
  let items ← v.items?
  items.mapM association?

/-- The names of the settings. -/
def keys : List String :=
  ["readonly_character", "abstract_character", "update_on_error", "allowed_providers",
    "languages", "file_associations", "excluded_paths"]

def ofValue? (v : Value) : Option Config := do
  let d : Config := {}
  let fields ← v.fields? keys
  let readonlyMark ← Value.fieldOr fields "readonly_character" Value.text? d.readonlyMark
  let abstractMark ← Value.fieldOr fields "abstract_character" Value.text? d.abstractMark
  let updateOnError ← Value.fieldOr fields "update_on_error" Value.bool? d.updateOnError
  let providers ← Value.fieldOr fields "allowed_providers" texts? d.providers
  let languages ← Value.fieldOr fields "languages" languages? d.languages
  let associations ← Value.fieldOr fields "file_associations" associations? d.associations
  let excluded ← Value.fieldOr fields "excluded_paths" texts? d.excluded
  some { readonlyMark, abstractMark, updateOnError, providers, languages, associations, excluded }

theorem nodup_languages_of_ofValue? {v : Value} {c : Config} (found : ofValue? v = some c) :
    (c.languages.map (·.1)).Nodup := by
  simp only [ofValue?, Option.bind_eq_bind, Option.bind_eq_some_iff] at found
  obtain ⟨fields, -, _, -, _, -, _, -, _, -, languages, written, _, -, _, -, found⟩ := found
  cases found
  unfold Value.fieldOr at written
  split at written
  · exact nodup_of_languages? written
  · cases written
    exact List.nodup_nil

/-- The settings of a text, checked. -/
def ofText (text : String) : Except ConfigError Config :=
  if (Text.trim text).isEmpty then .ok {}
  else match (Yaml.document? text).bind ofValue? with
    | none => .error .yaml
    | some config => do
      config.validate
      return config

theorem validate_default : ({} : Config).validate = .ok () :=
  (validate_eq_ok_iff _).2 ⟨by simp, by simp, by simp, by simp⟩

theorem ofText_cases {text : String} {c : Config} (accepted : ofText text = .ok c) :
    c.validate = .ok () ∧ (c = {} ∨ ∃ v, ofValue? v = some c) := by
  unfold ofText at accepted
  split at accepted
  · cases accepted
    exact ⟨validate_default, .inl rfl⟩
  · split at accepted
    · cases accepted
    · next config read =>
      obtain ⟨v, -, found⟩ := Option.bind_eq_some_iff.1 read
      cases checked : config.validate with
      | error fault => simp [checked, bind, Except.bind] at accepted
      | ok _ =>
        obtain rfl : config = c := by
          simpa [checked, bind, Except.bind, pure, Except.pure] using accepted
        exact ⟨checked, .inr ⟨v, found⟩⟩

/-! Files -/

def fileNames : List String := ["outliner.yaml", ".outliner.yaml"]

def discover? (fs : FileSystem) (directory : String) (userDirectory : Option String) :
    Option String :=
  let own := fileNames.map (Path.join directory)
  let users := userDirectory.toList.map (fun user =>
    Path.join (Path.join user "outliner") "config.yaml")
  (own ++ users).find? (fs.isFile ·)

def ofFile (fs : FileSystem) (path : String) : Except ConfigError Config :=
  match fs.read path with
  | .ok text => ofText text
  | .error fault => .error (.io fault.message)

def load (fs : FileSystem) (named : Option String) (directory : String)
    (userDirectory : Option String) : Except ConfigError Config :=
  match named.orElse (fun _ => discover? fs directory userDirectory) with
  | some path => ofFile fs path
  | none => .ok {}

end Config

end CodeOutline
