import CodeOutline.Proofs.Registry.Slots
import CodeOutline.Proofs.Related
import CodeOutline.Proofs.Text.Occurrence
import CodeOutline.Scaffold.Language
import Mathlib

/-!
The analyzer that a document is dispatched to. No document is claimed by two analyzers: their
language ids are different, and the two that share one ask for ends of file names of the same
length. So a document has one analyzer or none, whichever analyzers stand beside it, in whatever
order, and in whatever spelling of capitals its language id is given.
-/

set_option autoImplicit false

namespace CodeOutline

theorem Text.eq_of_endsWith {s a b : String} (first : endsWith s a = true)
    (second : endsWith s b = true) (same : a.length = b.length) : a = b := by
  obtain ⟨before, ends⟩ := Option.isSome_iff_exists.1 first
  obtain ⟨before', ends'⟩ := Option.isSome_iff_exists.1 second
  have whole := (append_of_dropEnd? ends).trans (append_of_dropEnd? ends').symm
  refine String.toList_inj.1 (List.append_inj_right' whole ?_)
  simpa only [String.length_toList] using same

namespace Analyzer

theorem mem_all (a : Analyzer) : a ∈ all := by cases a <;> decide

private theorem ids_apart_or_ends_apart : ∀ a ∈ all, ∀ b ∈ all, a ≠ b →
    (∀ id ∈ a.languageIds, ∀ id' ∈ b.languageIds, Text.lowerAscii id ≠ Text.lowerAscii id') ∨
      a.fileEnd.length = b.fileEnd.length ∧ a.fileEnd ≠ b.fileEnd := by
  decide +kernel

theorem eq_of_claims {a b : Analyzer} {d : Document} (first : a.claims d = true)
    (second : b.claims d = true) : a = b := by
  obtain ⟨speaks, ends⟩ := Bool.and_eq_true_iff.1 first
  obtain ⟨speaks', ends'⟩ := Bool.and_eq_true_iff.1 second
  obtain ⟨id, listed, same⟩ := List.any_eq_true.1 speaks
  obtain ⟨id', listed', same'⟩ := List.any_eq_true.1 speaks'
  by_contra other
  rcases ids_apart_or_ends_apart a a.mem_all b b.mem_all other with idsApart | ⟨length, endsApart⟩
  · exact idsApart id listed id' listed' ((eq_of_beq same).symm.trans (eq_of_beq same'))
  · exact endsApart (Text.eq_of_endsWith ends ends' length)

end Analyzer

namespace Registry

/-- The analyzer of the slot that takes the document. -/
def dispatch (r : Registry) (d : Document) : Except Failure Analyzer := do
  let i ← r.find d
  match r[i]? with
  | some slot => .ok slot.analyzer
  | none => .error (.unsupportedLanguage d.language)

/-- A slot for each analyzer there is. -/
def full : Registry := Analyzer.all.map (fun a => { analyzer := a })

section Dispatch

variable {r r' : Registry} {d : Document}

theorem dispatch_cases (r : Registry) (d : Document) :
    (∃ s ∈ r, s.analyzer.claims d = true ∧ r.dispatch d = .ok s.analyzer ∧
      ∀ c, r.analyze d c = s.analyzer.analyze d c) ∨
    ((∀ s ∈ r, s.analyzer.claims d = false) ∧
      r.dispatch d = .error (.unsupportedLanguage d.language) ∧
      ∀ c, r.analyze d c = .error (.unsupportedLanguage d.language)) := by
  rcases find_cases r d with ⟨i, s, found, here, claims⟩ | ⟨unclaimed, missed⟩
  · refine .inl ⟨s, List.mem_of_getElem? here, claims, ?_, analyze_of_find found here⟩
    simp only [dispatch, found, bind, Except.bind, here]
  · refine .inr ⟨unclaimed, ?_, analyze_of_missed missed⟩
    simp only [dispatch, missed, bind, Except.bind]

theorem dispatch_eq_ok_iff {a : Analyzer} :
    r.dispatch d = .ok a ↔ a.claims d = true ∧ ∃ s ∈ r, s.analyzer = a := by
  rcases dispatch_cases r d with ⟨s, member, claims, answer, -⟩ | ⟨unclaimed, answer, -⟩
  · rw [answer, Except.ok.injEq]
    constructor
    · rintro rfl
      exact ⟨claims, s, member, rfl⟩
    · rintro ⟨claims', -⟩
      exact Analyzer.eq_of_claims claims claims'
  · rw [answer]
    constructor
    · intro other
      cases other
    · rintro ⟨claims, s, member, rfl⟩
      rw [unclaimed s member] at claims
      cases claims

theorem dispatch_congr (same : ∀ s, s ∈ r ↔ s ∈ r') :
    r.dispatch d = r'.dispatch d ∧ ∀ c, r.analyze d c = r'.analyze d c := by
  rcases dispatch_cases r d with ⟨s, member, claims, answer, read⟩ | ⟨unclaimed, answer, read⟩
  · rcases dispatch_cases r' d with ⟨s', -, claims', answer', read'⟩ | ⟨unclaimed, -⟩
    · have one : s.analyzer = s'.analyzer := Analyzer.eq_of_claims claims claims'
      exact ⟨by rw [answer, answer', one], fun c => by rw [read, read', one]⟩
    · rw [unclaimed s ((same s).1 member)] at claims
      cases claims
  · rcases dispatch_cases r' d with ⟨s', member', claims', -⟩ | ⟨-, answer', read'⟩
    · rw [unclaimed s' ((same s').2 member')] at claims'
      cases claims'
    · exact ⟨by rw [answer, answer'], fun c => by rw [read, read']⟩

theorem dispatch_full_eq_ok_iff {a : Analyzer} :
    full.dispatch d = .ok a ↔ a.claims d = true := by
  rw [dispatch_eq_ok_iff, and_iff_left_iff_imp]
  intro _
  exact ⟨_, List.mem_map_of_mem a.mem_all, rfl⟩

theorem dispatch_ofConfig_eq_ok_iff {c : Config} {a : Analyzer} :
    (ofConfig c).dispatch d = .ok a ↔
      full.dispatch d = .ok a ∧ c.allows a.provider = true := by
  rw [dispatch_eq_ok_iff, dispatch_full_eq_ok_iff]
  refine and_congr_right fun _ => ?_
  simp [ofConfig, a.mem_all]

end Dispatch

/-- At most one of all analyzers claims a document. So a registry with some providers only
dispatches it as the full one does, provided that it has that analyzer, and refuses it otherwise,
and it makes no difference in which order the slots of a registry stand. -/
theorem dispatch_partition (d : Document) :
    Analyzer.all.Pairwise (fun a b => ¬(a.claims d = true ∧ b.claims d = true)) ∧
    (∀ c : Config,
      ((ofConfig c).dispatch d = full.dispatch d ∨
        (ofConfig c).dispatch d = .error (.unsupportedLanguage d.language)) ∧
      ∀ a, (ofConfig c).dispatch d = .ok a ↔
        full.dispatch d = .ok a ∧ c.allows a.provider = true) ∧
    ∀ r r' : Registry, r.Perm r' →
      r.dispatch d = r'.dispatch d ∧ ∀ c, r.analyze d c = r'.analyze d c := by
  refine ⟨?_, fun c => ⟨?_, fun a => dispatch_ofConfig_eq_ok_iff⟩, fun r r' perm => ?_⟩
  · refine Analyzer.all_nodup.imp fun differ both => ?_
    exact differ (Analyzer.eq_of_claims both.1 both.2)
  · rcases dispatch_cases (ofConfig c) d with ⟨s, -, -, answer, -⟩ | ⟨-, answer, -⟩
    · exact .inl (answer.trans (dispatch_ofConfig_eq_ok_iff.1 answer).1.symm)
    · exact .inr answer
  · exact dispatch_congr fun s => perm.mem_iff

/-- Items for a home, whose language two analyzers share, in a registry turned round. -/
theorem dispatch_partition_homeItems :
    let d : Document := { language := "OpenHAB", file := "conf/home.items", text := "" }
    let turned : Registry := full.reverse
    full.dispatch d = .ok .items ∧ turned.Perm full ∧ turned.dispatch d = .ok .items := by
  intro d turned
  have lower : Text.lowerAscii "OpenHAB" = "openhab" := by decide +kernel
  have kept : Text.lowerAscii "openhab" = "openhab" := by decide +kernel
  have speaks : d.isLanguage "openhab" = true := beq_iff_eq.2 (lower.trans kept.symm)
  have ends : Text.endsWith d.file "items" = true := by decide +kernel
  have claims : Analyzer.items.claims d = true :=
    Bool.and_eq_true_iff.2 ⟨List.any_eq_true.2 ⟨"openhab", List.mem_singleton_self _, speaks⟩, ends⟩
  have taken : full.dispatch d = .ok .items := dispatch_full_eq_ok_iff.2 claims
  have perm : turned.Perm full := full.reverse_perm
  exact ⟨taken, perm, ((dispatch_partition d).2.2 turned full perm).1.trans taken⟩

end Registry

/-! Wherever an analysis looks at the language id of a document, it looks at its small letters. Two
documents whose ids differ in capitals only are analyzed alike, and only a refusal tells them
apart, because it names the id as it is spelled. -/

namespace Text

/-- The same text but for the case of ASCII letters. -/
def SameLetters (s t : String) : Prop :=
  List.Forall₂ (fun c d => c = d ∨ c.toLower = d ∨ c = d.toLower) s.toList t.toList

theorem lowerAscii_eq_of_sameLetters {s t : String} (same : SameLetters s t) :
    lowerAscii s = lowerAscii t := by
  rw [lowerAscii, lowerAscii, ← String.toList_inj, String.toList_map, String.toList_map]
  refine map_eq_of_forall₂ same ?_
  rintro c d (rfl | rfl | rfl)
  · rfl
  · exact (Char.toLower_toLower_eq_toLower c).symm
  · exact Char.toLower_toLower_eq_toLower d

end Text

/-- Two documents that differ in nothing but the case of letters of their language ids. -/
structure Document.IsRespelling (d e : Document) : Prop where
  language : Text.SameLetters d.language e.language
  file : d.file = e.file
  text : d.text = e.text
  dirty : d.dirty = e.dirty

namespace Document.IsRespelling

variable {d e : Document} (alike : d.IsRespelling e)

include alike

theorem lower : Text.lowerAscii d.language = Text.lowerAscii e.language :=
  Text.lowerAscii_eq_of_sameLetters alike.language

theorem isLanguage : d.isLanguage = e.isLanguage := by
  funext id
  rw [Document.isLanguage, Document.isLanguage, alike.lower]

theorem claims (a : Analyzer) : a.claims d = a.claims e := by
  rw [Analyzer.claims, Analyzer.claims, alike.isLanguage, alike.file]

theorem malformed : Analyzer.malformed d = Analyzer.malformed e := by
  rw [Analyzer.malformed, Analyzer.malformed, alike.file]

theorem orSyntaxError : Analyzer.orSyntaxError d = Analyzer.orSyntaxError e := by
  funext t
  cases t with
  | none => rw [Analyzer.orSyntaxError, Analyzer.orSyntaxError, alike.malformed]
  | some t => rfl

theorem symbols (claimed : Analyzer.cfamily.claims d = true) :
    Analyzer.symbols d = Analyzer.symbols e := by
  have spoken := Analyzer.hasSymbols_of_claims claimed
  have spoken' : Analysis.Symbols.languages.any e.isLanguage = true := alike.isLanguage ▸ spoken
  have same : Analysis.Symbols.symbols? d.language d.text =
      Analysis.Symbols.symbols? e.language e.text := by
    simp only [Analysis.Symbols.symbols?, Analysis.Symbols.root?, alike.lower, alike.text]
  rw [Analyzer.symbols, Analyzer.symbols, if_pos spoken, if_pos spoken', same, alike.malformed]

theorem read {a : Analyzer} (claimed : a.claims d = true) (settings : LanguageSettings) :
    a.read d settings = a.read e settings := by
  cases a with
  | cfamily => simp only [Analyzer.read, alike.symbols claimed, alike.text]
  | script =>
    have dialect : Analysis.Script.dialectOf d.language (d.extension? == some "tsx") =
        Analysis.Script.dialectOf e.language (e.extension? == some "tsx") := by
      simp only [Analysis.Script.dialectOf, Document.extension?, alike.lower, alike.file]
    simp only [Analyzer.read, dialect, alike.orSyntaxError, alike.text]
  | less => simp only [Analyzer.read, alike.text, alike.file]
  | php | java | python | css | json =>
    simp only [Analyzer.read, alike.orSyntaxError, alike.text]
  | rules | items | rapid => simp only [Analyzer.read, alike.text]

theorem analyze {a : Analyzer} (claimed : a.claims d = true) (c : Config) :
    a.analyze d c = a.analyze e c := by
  have settings : c.language d.language = c.language e.language := by
    rw [Config.language, Config.language, alike.lower]
  simp only [Analyzer.analyze, settings, alike.read claimed, alike.text]

end Document.IsRespelling

namespace Registry

/-- The case of letters in a language id makes no difference. Either two documents that differ in
it only have the same slot and the same analysis, a tree or a failure, or both are refused, each
under its own id; and new files are written in one language for both, or in none. -/
theorem respelled_alike {d e : Document} (alike : d.IsRespelling e) (r : Registry) (c : Config) :
    ((∃ i, r.find d = .ok i ∧ r.find e = .ok i ∧ r.analyze d c = r.analyze e c) ∨
      ((r.find d = .error (.unsupportedLanguage d.language) ∧
          r.find e = .error (.unsupportedLanguage e.language)) ∧
        r.analyze d c = .error (.unsupportedLanguage d.language) ∧
        r.analyze e c = .error (.unsupportedLanguage e.language))) ∧
    Scaffold.Language.ofId? d.language = Scaffold.Language.ofId? e.language := by
  refine ⟨?_, by rw [Scaffold.Language.ofId?, Scaffold.Language.ofId?, alike.lower]⟩
  rcases find_cases r d with ⟨i, s, found, here, claimed⟩ | ⟨unclaimed, missed⟩
  · have found' : r.find e = .ok i := by
      rw [find_eq_ok_iff] at found ⊢
      simpa only [alike.claims] using found
    refine .inl ⟨i, found, found', ?_⟩
    rw [analyze_of_find found here, analyze_of_find found' here, alike.analyze claimed]
  · have missed' : r.find e = .error (.unsupportedLanguage e.language) :=
      find_of_unclaimed fun s member => alike.claims s.analyzer ▸ unclaimed s member
    exact .inr ⟨⟨missed, missed'⟩, analyze_of_missed missed c, analyze_of_missed missed' c⟩

/-- A script with an id in capitals, which chooses the grammar too. -/
theorem respelled_alike_shout :
    let d : Document := { language := "typescriptreact", file := "a.ts", text := "const a = <b/>" }
    let e : Document := { d with language := "TypeScriptReact" }
    d.IsRespelling e ∧ ∃ i, (ofConfig {}).find d = .ok i ∧ (ofConfig {}).find e = .ok i ∧
      (ofConfig {}).analyze d {} = (ofConfig {}).analyze e {} := by
  intro d e
  have letters : Text.SameLetters d.language e.language := by
    unfold Text.SameLetters
    decide +kernel
  have alike : d.IsRespelling e := ⟨letters, rfl, rfl, rfl⟩
  have found : (ofConfig {}).find d = .ok 2 := by decide +kernel
  refine ⟨alike, (respelled_alike alike (ofConfig {}) {}).1.resolve_right ?_⟩
  rintro ⟨⟨missed, -⟩, -⟩
  rw [found] at missed
  cases missed

end Registry

end CodeOutline
