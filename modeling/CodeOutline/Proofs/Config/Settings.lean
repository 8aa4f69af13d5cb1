import CodeOutline.Config.Read
import CodeOutline.Token.OrderedMap
import Mathlib

/-!
What becomes of settings that are accepted. An exclusion pattern with a fault excludes nothing,
and settings under a key with capital letters are those of no language. All others count.
-/

set_option autoImplicit false

namespace CodeOutline

theorem Text.lowerAscii_lowerAscii (s : String) : lowerAscii (lowerAscii s) = lowerAscii s := by
  rw [lowerAscii, lowerAscii, ← String.toList_inj]
  simp only [String.toList_map, List.map_map]
  exact List.map_congr_left (fun c _ => Char.toLower_toLower_eq_toLower c)

namespace Glob

/-- The pattern has no fault. -/
def isWellFormed (pattern : String) : Bool := (parse pattern).isOk

theorem isWellFormed_iff (pattern : String) :
    isWellFormed pattern = true ↔ ∃ tokens, parse pattern = .ok tokens := by
  unfold isWellFormed
  cases parse pattern <;> simp [Except.isOk, Except.toBool]

theorem isMatch_of_parse {pattern : String} {tokens : List Token}
    (parsed : parse pattern = .ok tokens) (text : String) :
    isMatch pattern text = matchTokens tokens text := by
  rw [isMatch, parsed]

theorem isWellFormed_and_isMatch (pattern text : String) :
    (isWellFormed pattern && isMatch pattern text) = isMatch pattern text := by
  unfold isWellFormed isMatch
  cases parse pattern <;> rfl

end Glob

namespace Config

/-- The settings without those that are passed over: the exclusion patterns with a fault and
the settings under keys with capital letters. -/
def effective (c : Config) : Config :=
  { c with
    excluded := c.excluded.filter Glob.isWellFormed
    languages := c.languages.filter (fun entry => Text.lowerAscii entry.1 == entry.1) }

/-- No setting is passed over: every pattern can be matched, and what is stored for a language
is what is found under its key. -/
structure HeedsAll (c : Config) : Prop where
  associations : ∀ a ∈ c.associations, Glob.isWellFormed a.pattern = true
  excluded : ∀ pattern ∈ c.excluded, Glob.isWellFormed pattern = true
  languages : ∀ entry ∈ c.languages, c.language entry.1 = entry.2

theorem excludes_effective (c : Config) (path : RawText) :
    c.effective.excludes path = c.excludes path := by
  simp only [excludes, effective, List.any_filter, Glob.isWellFormed_and_isMatch]

private theorem lookup_filter_of_kept {α : Type} (kept : String → Bool) {key : String}
    (proper : kept key = true) (entries : List (String × α)) :
    (entries.filter (fun entry => kept entry.1)).lookup key = entries.lookup key := by
  induction entries with
  | nil => rfl
  | cons entry entries ih =>
    obtain ⟨k, a⟩ := entry
    by_cases same : key = k
    · subst same
      simp [proper]
    · have other : (key == k) = false := by simpa using same
      cases keeps : kept k <;> simp [keeps, List.lookup_cons, other, ih]

theorem language_effective (c : Config) (id : String) :
    c.effective.language id = c.language id := by
  have small : (Text.lowerAscii (Text.lowerAscii id) == Text.lowerAscii id) = true :=
    beq_iff_eq.2 (Text.lowerAscii_lowerAscii id)
  have found := lookup_filter_of_kept (fun key => Text.lowerAscii key == key) small c.languages
  rw [language, language, effective, found]

/-- What is found for a language: the settings under its small letters, or the default ones when
there are none. -/
theorem language_eq_iff {c : Config} (distinct : (c.languages.map (·.1)).Nodup) (id : String)
    (settings : LanguageSettings) :
    c.language id = settings ↔ (Text.lowerAscii id, settings) ∈ c.languages ∨
      Text.lowerAscii id ∉ c.languages.map (·.1) ∧ settings = {} := by
  have stored (own : LanguageSettings) : c.languages.lookup (Text.lowerAscii id) = some own ↔
      (Text.lowerAscii id, own) ∈ c.languages :=
    OrderedMap.get?_eq_some_iff ⟨c.languages, distinct⟩ (Text.lowerAscii id) own
  have present : Text.lowerAscii id ∈ c.languages.map (·.1) ↔
      ∃ own, (Text.lowerAscii id, own) ∈ c.languages := by simp
  simp only [present, ← stored, language]
  cases c.languages.lookup (Text.lowerAscii id) <;> simp [eq_comm]

variable {text : String} {c : Config}

theorem nodup_languages (accepted : ofText text = .ok c) : (c.languages.map (·.1)).Nodup := by
  obtain ⟨-, rfl | ⟨v, found⟩⟩ := ofText_cases accepted
  · exact List.nodup_nil
  · exact nodup_languages_of_ofValue? found

theorem exists_tokens_of_association (accepted : ofText text = .ok c) {a : FileAssociation}
    (member : a ∈ c.associations) : ∃ tokens, Glob.parse a.pattern = .ok tokens :=
  ((validate_eq_ok_iff c).1 (ofText_cases accepted).1).2.2.2 a member

theorem heedsAll_effective (accepted : ofText text = .ok c) : c.effective.HeedsAll where
  associations a member :=
    (Glob.isWellFormed_iff _).2 (exists_tokens_of_association accepted member)
  excluded pattern member := (List.mem_filter.1 member).2
  languages entry member := by
    obtain ⟨stored, small⟩ := List.mem_filter.1 member
    rw [language_effective, language_eq_iff (nodup_languages accepted), beq_iff_eq.1 small]
    exact .inl stored

theorem heedsAll_iff (accepted : ofText text = .ok c) :
    c.HeedsAll ↔ (∀ pattern ∈ c.excluded, Glob.isWellFormed pattern = true) ∧
      ∀ entry ∈ c.languages, (Text.lowerAscii entry.1, entry.2) ∈ c.languages ∨
        Text.lowerAscii entry.1 ∉ c.languages.map (·.1) ∧ entry.2 = {} := by
  have found := language_eq_iff (nodup_languages accepted)
  constructor
  · rintro ⟨-, excluded, languages⟩
    exact ⟨excluded, fun entry member => (found _ _).1 (languages entry member)⟩
  · rintro ⟨excluded, languages⟩
    exact ⟨(heedsAll_effective accepted).associations, excluded,
      fun entry member => (found _ _).2 (languages entry member)⟩

/-- Which of the accepted settings count. Every association has a pattern that is matched, and
no language stands twice. Exclusion patterns with a fault and settings under keys with capital
letters are passed over: every question has the same answer without them, and what is left is
heeded. So all settings are heeded exactly if no exclusion pattern has a fault, and what stands
under a key with capital letters is by chance what stands under its small letters, or the default
when nothing does. -/
theorem ofText_effective (accepted : ofText text = .ok c) :
    (∀ a ∈ c.associations, ∃ tokens, Glob.parse a.pattern = .ok tokens ∧
      ∀ path, Glob.isMatch a.pattern path = Glob.matchTokens tokens path) ∧
    (c.languages.map (·.1)).Nodup ∧
    (∀ path, c.excludes path = c.effective.excludes path) ∧
    (∀ id, c.language id = c.effective.language id) ∧
    c.effective.HeedsAll ∧
    (c.HeedsAll ↔ (∀ pattern ∈ c.excluded, Glob.isWellFormed pattern = true) ∧
      ∀ entry ∈ c.languages, (Text.lowerAscii entry.1, entry.2) ∈ c.languages ∨
        Text.lowerAscii entry.1 ∉ c.languages.map (·.1) ∧ entry.2 = {}) := by
  refine ⟨fun a member => ?_, nodup_languages accepted,
    fun path => (excludes_effective c path).symm, fun id => (language_effective c id).symm,
    heedsAll_effective accepted, heedsAll_iff accepted⟩
  obtain ⟨tokens, parsed⟩ := exists_tokens_of_association accepted member
  exact ⟨tokens, parsed, Glob.isMatch_of_parse parsed⟩

/-- A text with an exclusion pattern that is never closed, and two entries for one language. -/
def mixedText : String :=
  "file_associations:\n  - pattern: '*.inc'\n    language: php\n" ++
  "excluded_paths: ['[', '*.tmp']\n" ++
  "languages:\n  php:\n    namespace_position: suffix\n  PHP:\n    namespace_position: none\n"

def mixedSettings : Config where
  associations := [⟨"*.inc", "php"⟩]
  excluded := ["[", "*.tmp"]
  languages := [("php", { position := .suffix }), ("PHP", { position := .none })]

theorem ofText_mixedText : ofText mixedText = .ok mixedSettings := by
  have found : (ofText mixedText).toOption = some mixedSettings := by decide +kernel
  cases read : ofText mixedText with
  | error fault => simp [read, Except.toOption] at found
  | ok c => simpa [read, Except.toOption] using found

theorem ofText_effective_mixedText :
    ofText mixedText = .ok mixedSettings ∧
    (∃ tokens, Glob.parse "*.inc" = .ok tokens ∧
      ∀ path, Glob.isMatch "*.inc" path = Glob.matchTokens tokens path) ∧
    mixedSettings.effective = { mixedSettings with
      excluded := ["*.tmp"], languages := [("php", { position := .suffix })] } ∧
    (∀ path, mixedSettings.excludes path = mixedSettings.effective.excludes path) ∧
    (∀ id, mixedSettings.language id = mixedSettings.effective.language id) ∧
    mixedSettings.effective.HeedsAll := by
  obtain ⟨associations, -, excludes, language, heeded, -⟩ := ofText_effective ofText_mixedText
  have matched := associations ⟨"*.inc", "php"⟩ (by decide)
  exact ⟨ofText_mixedText, matched, by decide +kernel, excludes, language, heeded⟩

/-- Settings are accepted with a pattern that is none, and with an entry for a language that is
not found under its own key. -/
theorem not_heedsAll :
    (¬ ∀ (text : String) (c : Config), ofText text = .ok c →
      ∀ pattern ∈ c.excluded, Glob.isWellFormed pattern = true) ∧
    ¬ ∀ (text : String) (c : Config), ofText text = .ok c →
      ∀ entry ∈ c.languages, c.language entry.1 = entry.2 := by
  constructor
  · intro checked
    have proper := checked _ _ ofText_mixedText "[" (by decide)
    exact absurd proper (by decide +kernel)
  · intro heeded
    have found := heeded _ _ ofText_mixedText ("PHP", { position := .none }) (by decide)
    exact absurd found (by decide +kernel)

end Config

end CodeOutline
