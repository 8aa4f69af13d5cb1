import CodeOutline.Proofs.Text.Bytes
import CodeOutline.Registry
import Mathlib.Logic.Function.Basic

/-!
The slots of a registry by their analyzers. Each analyzer has one slot at most, so that the
registry is a list of analyzers together with a tree for each of them, and looking at a
document changes the tree of one analyzer or none.
-/

set_option autoImplicit false

namespace CodeOutline

namespace Analyzer

theorem all_nodup : all.Nodup := by decide

private theorem orSyntaxError_ne_unsupported (d : Document) (t : Option TokenTree)
    (id : String) : orSyntaxError d t ≠ .error (.unsupportedLanguage id) := by
  cases t <;> simp [orSyntaxError, malformed]

theorem hasSymbols_of_claims {d : Document} (claimed : cfamily.claims d = true) :
    Analysis.Symbols.languages.any d.isLanguage = true := by
  obtain ⟨language, member, speaks⟩ := List.any_eq_true.1 (Bool.and_eq_true_iff.1 claimed).1
  have listed : ∀ id ∈ cfamily.languageIds, id ∈ Analysis.Symbols.languages := by decide
  exact List.any_eq_true.2 ⟨language, listed language member, speaks⟩

private theorem symbols_ne_unsupported {d : Document} (claimed : cfamily.claims d = true)
    (id : String) : symbols d ≠ .error (.unsupportedLanguage id) := by
  unfold symbols
  rw [if_pos (hasSymbols_of_claims claimed)]
  split <;> simp [malformed]

theorem analyze_ne_unsupported {a : Analyzer} {d : Document} (claimed : a.claims d = true)
    (c : Config) (id : String) : a.analyze d c ≠ .error (.unsupportedLanguage id) := by
  have unread : a.read d (c.language d.language) ≠ .error (.unsupportedLanguage id) := by
    cases a with
    | cfamily =>
      intro failed
      simp only [read] at failed
      cases found : symbols d with
      | ok symbols => simp [found, Except.map] at failed
      | error f =>
        simp only [found, Except.map, Except.error.injEq] at failed
        exact symbols_ne_unsupported claimed id (failed ▸ found)
    | less =>
      intro failed
      simp only [read] at failed
      cases answer : Analysis.Less.tree d.text with
      | ok t => rw [answer] at failed; cases failed
      | error text => rw [answer] at failed; cases failed
    | rules | items | rapid => simp [read]
    | php | java | script | python | css | json => exact orSyntaxError_ne_unsupported d _ id
  intro failed
  unfold analyze at failed
  cases answer : a.read d (c.language d.language) with
  | ok t => simp [answer, bind, Except.bind, pure, Except.pure] at failed
  | error f =>
    simp only [answer, bind, Except.bind, Except.error.injEq] at failed
    exact unread (failed ▸ answer)

end Analyzer

namespace Config

/-- The analyzers in use, in the order in which they are asked. -/
def analyzers (c : Config) : List Analyzer := Analyzer.all.filter (fun a => c.allows a.provider)

/-- The analyzer in use that takes the document. -/
def analyzerFor? (c : Config) (d : Document) : Option Analyzer :=
  c.analyzers.find? (fun a => a.claims d)

theorem analyzers_nodup (c : Config) : c.analyzers.Nodup := Analyzer.all_nodup.filter _

end Config

namespace Registry

/-! The slot that is found -/

section Found

variable {r : Registry} {d : Document} {i : Nat}

theorem find_eq_ok_iff :
    r.find d = .ok i ↔ r.findIdx? (fun s => s.analyzer.claims d) = some i := by
  unfold find
  cases r.findIdx? (fun s => s.analyzer.claims d) <;> simp

theorem find_of_unclaimed (unclaimed : ∀ s ∈ r, s.analyzer.claims d = false) :
    r.find d = .error (.unsupportedLanguage d.language) := by
  rw [find, List.findIdx?_eq_none_iff.2 unclaimed]

theorem find_cases (r : Registry) (d : Document) :
    (∃ i s, r.find d = .ok i ∧ r[i]? = some s ∧ s.analyzer.claims d = true) ∨
      ((∀ s ∈ r, s.analyzer.claims d = false) ∧
        r.find d = .error (.unsupportedLanguage d.language)) := by
  cases index : r.findIdx? (fun s => s.analyzer.claims d) with
  | none =>
    have unclaimed := List.findIdx?_eq_none_iff.1 index
    exact .inr ⟨unclaimed, find_of_unclaimed unclaimed⟩
  | some i =>
    obtain ⟨bound, claims, -⟩ := List.findIdx?_eq_some_iff_getElem.1 index
    exact .inl ⟨i, r[i], find_eq_ok_iff.2 index, List.getElem?_eq_getElem bound, claims⟩

theorem analyze_of_find {s : Slot} (found : r.find d = .ok i) (here : r[i]? = some s)
    (c : Config) : r.analyze d c = s.analyzer.analyze d c := by
  simp only [analyze, found, bind, Except.bind, here]

theorem analyze_of_missed {f : Failure} (missed : r.find d = .error f) (c : Config) :
    r.analyze d c = .error f := by
  simp only [analyze, missed, bind, Except.bind]

end Found

/-! Registries by their analyzers -/

/-- One slot for each of the analyzers, each with its tree. -/
def holding (as : List Analyzer) (trees : Analyzer → TokenTree) : Registry :=
  as.map (fun a => ⟨a, trees a⟩)

theorem ofConfig_eq_holding (c : Config) : ofConfig c = holding c.analyzers (fun _ => .empty) :=
  rfl

section Holding

variable {as : List Analyzer} (trees : Analyzer → TokenTree) {d : Document} {a : Analyzer}

private theorem findIdx?_holding :
    (holding as trees).findIdx? (fun s => s.analyzer.claims d) =
      as.findIdx? (fun a => a.claims d) := by
  simp only [holding, List.findIdx?_map, Function.comp_def]

theorem find_holding_of_none (unclaimed : as.find? (fun a => a.claims d) = none) :
    (holding as trees).find d = .error (.unsupportedLanguage d.language) := by
  refine find_of_unclaimed fun s member => ?_
  obtain ⟨a, listed, rfl⟩ := List.mem_map.1 member
  simpa using List.find?_eq_none.1 unclaimed a listed

theorem find_holding_of_some (claimed : as.find? (fun a => a.claims d) = some a) :
    ∃ i, (holding as trees).find d = .ok i ∧ as[i]? = some a := by
  rw [List.find?_eq_some_iff_getElem] at claimed
  obtain ⟨takes, i, bound, here, before⟩ := claimed
  refine ⟨i, ?_, by rw [List.getElem?_eq_getElem bound, here]⟩
  have index : as.findIdx? (fun a => a.claims d) = some i := by
    rw [List.findIdx?_eq_some_iff_getElem]
    exact ⟨bound, by rw [here]; exact takes, fun j earlier => by simpa using before j earlier⟩
  rw [find_eq_ok_iff, findIdx?_holding, index]

theorem getElem?_holding {i : Nat} (here : as[i]? = some a) :
    (holding as trees)[i]? = some ⟨a, trees a⟩ := by
  simp only [holding, List.getElem?_map, here, Option.map_some]

private theorem modify_holding (nodup : as.Nodup) {i : Nat} (here : as[i]? = some a)
    (t : TokenTree) :
    (holding as trees).modify i (fun slot => { slot with tree := t }) =
      holding as (Function.update trees a t) := by
  apply List.ext_getElem?
  intro j
  simp only [holding, List.getElem?_modify, List.getElem?_map]
  cases there : as[j]? with
  | none => rfl
  | some b =>
    by_cases same : i = j
    · subst same
      obtain rfl : a = b := Option.some.inj (here.symm.trans there)
      simp
    · have other : b ≠ a := by
        rintro rfl
        have bound := (List.getElem?_eq_some_iff.1 here).1
        exact same ((List.getElem?_inj bound nodup).1 (here.trans there.symm))
      simp [same, Function.update_of_ne other]

theorem analyze_holding (claimed : as.find? (fun a => a.claims d) = some a) (c : Config) :
    (holding as trees).analyze d c = a.analyze d c := by
  obtain ⟨i, found, here⟩ := find_holding_of_some trees claimed
  exact analyze_of_find found (getElem?_holding trees here) c

theorem refresh_holding_of_ok (nodup : as.Nodup)
    (claimed : as.find? (fun a => a.claims d) = some a) {c : Config} {t : TokenTree}
    (analyzed : a.analyze d c = .ok t) :
    ∃ i, as[i]? = some a ∧
      (holding as trees).refresh d c = .ok (i, holding as (Function.update trees a t)) := by
  obtain ⟨i, found, here⟩ := find_holding_of_some trees claimed
  refine ⟨i, here, ?_⟩
  simp only [refresh, found, analyze_holding trees claimed, analyzed, bind, Except.bind, pure,
    Except.pure, modify_holding trees nodup here]

theorem refresh_holding_of_error (claimed : as.find? (fun a => a.claims d) = some a)
    {c : Config} {f : Failure} (failed : a.analyze d c = .error f) :
    (holding as trees).refresh d c = .error f := by
  obtain ⟨i, found, here⟩ := find_holding_of_some trees claimed
  simp only [refresh, found, analyze_holding trees claimed, failed, bind, Except.bind]

theorem tokenTree_holding_of_none (unclaimed : as.find? (fun a => a.claims d) = none)
    (c : Config) : (holding as trees).tokenTree d c = (.empty, holding as trees) := by
  have stuck : (holding as trees).refresh d c = .error (.unsupportedLanguage d.language) := by
    simp only [refresh, find_holding_of_none trees unclaimed, bind, Except.bind]
  simp only [tokenTree, stuck]

theorem tokenTree_holding_of_ok (nodup : as.Nodup)
    (claimed : as.find? (fun a => a.claims d) = some a) {c : Config} {t : TokenTree}
    (analyzed : a.analyze d c = .ok t) :
    (holding as trees).tokenTree d c = (t, holding as (Function.update trees a t)) := by
  obtain ⟨i, here, refreshed⟩ := refresh_holding_of_ok trees nodup claimed analyzed
  simp only [tokenTree, refreshed, tree?, getElem?_holding _ here, Option.map_some,
    Option.getD_some, Function.update_self]

theorem tokenTree_holding_of_error (claimed : as.find? (fun a => a.claims d) = some a)
    {c : Config} {f : Failure} (failed : a.analyze d c = .error f) :
    (holding as trees).tokenTree d c = (trees a, holding as trees) := by
  obtain ⟨i, found, here⟩ := find_holding_of_some trees claimed
  have stuck := refresh_holding_of_error trees claimed failed
  have takes : a.claims d = true := by
    have first := List.find?_some claimed
    exact first
  cases f with
  | unsupportedLanguage id => exact absurd failed (Analyzer.analyze_ne_unsupported takes c id)
  | _ => simp only [tokenTree, stuck, found, tree?, getElem?_holding trees here, Option.map_some,
      Option.getD_some]

end Holding

end Registry

/-!
Detected languages and the analyzers that take them. The language of a path comes from its
extension in any spelling of capitals, and each language of the table has an analyzer. Two
analyzers share one language and look at the end of the file name too, there with its
capitals, so that a detected file of that language can be left without an analyzer.
-/

theorem Text.endsWith_empty (s : String) : endsWith s "" = true := by
  simp [endsWith, dropEnd?, dropStart?]

namespace Analyzer

def fileEnds (id : String) : List String :=
  (all.filter (fun a => a.languageIds.any (fun other =>
    Text.lowerAscii id == Text.lowerAscii other))).map fileEnd

private theorem fileEnds_of_mem_table : ∀ row ∈ extensionTable,
    fileEnds row.1 = if row.1 = "openhab" then ["rules", "items"] else [""] := by
  decide +kernel

end Analyzer

private theorem mem_table_of_detected {c : Config} (unassociated : c.associations = [])
    {path : RawText} {id : String} (detected : detectLanguage path c = some id) :
    ∃ row ∈ extensionTable, row.1 = id := by
  have byExtension : (Path.extension? path).bind languageOfExtension? = some id := by
    simpa [detectLanguage, Config.associated?, unassociated] using detected
  obtain ⟨extension, -, known⟩ := Option.bind_eq_some_iff.1 byExtension
  obtain ⟨row, found, same⟩ := Option.map_eq_some_iff.1 known
  exact ⟨row, List.mem_of_find?_eq_some found, same⟩

namespace Registry

theorem supports_eq_any_fileEnds {c : Config} (unrestricted : c.providers = []) (d : Document) :
    (ofConfig c).supports d = (Analyzer.fileEnds d.language).any (Text.endsWith d.file) := by
  have whole : Analyzer.all.filter (fun a => c.allows a.provider) = Analyzer.all := by
    simp [Config.allows, unrestricted]
  simp only [supports, ofConfig, whole, List.any_map, Analyzer.fileEnds, List.any_filter]
  rfl

theorem find_eq_unsupported_iff (r : Registry) (d : Document) :
    r.find d = .error (.unsupportedLanguage d.language) ↔ r.supports d = false := by
  unfold find supports
  cases found : r.findIdx? (fun s => s.analyzer.claims d) with
  | none => simpa using List.findIdx?_eq_none_iff.1 found
  | some i =>
    obtain ⟨bound, claims, -⟩ := List.findIdx?_eq_some_iff_getElem.1 found
    have taken : r.any (fun s => s.analyzer.claims d) = true :=
      List.any_eq_true.2 ⟨r[i], List.getElem_mem bound, claims⟩
    simp [taken]

/-- A document whose language was detected from its extension is taken by an analyzer, except
that in the language shared by two analyzers its name has to end in the word of one of them,
in small letters. -/
theorem supports_detected_iff {c : Config} (unassociated : c.associations = [])
    (unrestricted : c.providers = []) {path : RawText} {id : String}
    (detected : detectLanguage path c = some id) (text : String) (dirty : Bool) :
    let d : Document := { language := id, file := path.lossy, text, dirty }
    ((ofConfig c).supports d = true ↔ (id = "openhab" →
      Text.endsWith path.lossy "rules" = true ∨ Text.endsWith path.lossy "items" = true)) ∧
    ((ofConfig c).find d = .error (.unsupportedLanguage id) ↔
      id = "openhab" ∧ Text.endsWith path.lossy "rules" = false ∧
        Text.endsWith path.lossy "items" = false) := by
  intro d
  obtain ⟨row, member, rfl⟩ := mem_table_of_detected unassociated detected
  have exact : (ofConfig c).supports d = true ↔ (row.1 = "openhab" →
      Text.endsWith path.lossy "rules" = true ∨ Text.endsWith path.lossy "items" = true) := by
    rw [supports_eq_any_fileEnds unrestricted, Analyzer.fileEnds_of_mem_table row member]
    split
    · next shared => simp [shared, d]
    · next own => simp [own, Text.endsWith_empty]
  refine ⟨exact, ?_⟩
  rw [find_eq_unsupported_iff, ← Bool.not_eq_true, exact]
  simp [Classical.not_imp]

/-- Small letters where the analyzer expects them. -/
theorem supports_detected_homeRules :
    detectLanguage "conf/home.rules" {} = some "openhab" ∧
      (ofConfig {}).supports
        { language := "openhab", file := "conf/home.rules", text := "", dirty := false } =
          true := by
  have detected : detectLanguage "conf/home.rules" {} = some "openhab" := by decide +kernel
  have exact := (supports_detected_iff rfl rfl detected "" false).1
  rw [RawText.lossy_ofText] at exact
  exact ⟨detected, exact.2 (fun _ => .inl (by decide +kernel))⟩

/-- A language detected from an extension in capitals, and no analyzer for the file. -/
theorem unsupported_upperCase_rules :
    ∃ id, detectLanguage "Home.RULES" {} = some id ∧
      (ofConfig {}).supports { language := id, file := "Home.RULES", text := "" } = false := by
  exact ⟨"openhab", by decide +kernel, by decide +kernel⟩

end Registry

end CodeOutline
