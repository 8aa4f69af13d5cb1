import CodeOutline.Proofs.Analysis.Spans
import CodeOutline.Proofs.Less.Spans

/-!
When columns need not be turned. In a text of single bytes a turn of the columns leaves an outline
as it is if all its places are ranges of the text. That they are, but for one case: the names in
style sheets with nested rules, which may go over the end of a line.
-/

set_option autoImplicit false

namespace CodeOutline.Analyzer

open Text (IsSpan isAscii turned)

/-- The tree of a document with columns that are turned whatever characters there are. -/
def analyzeTurned (a : Analyzer) (d : Document) (c : Config) : Except Failure TokenTree := do
  let t ← a.read d (c.language d.language)
  return t.useCharColumns d.text

/-- Some name in the outline of a style sheet with nested rules goes over the end of a line. -/
def HasBrokenName (a : Analyzer) (d : Document) : Prop :=
  a = .less ∧ ∃ t, Analysis.Less.tree d.text = .ok t ∧ ∃ v ∈ t.styles, '\n' ∈ v.name.toList

variable {a : Analyzer} {d : Document} {settings : LanguageSettings} {t : TokenTree}

theorem tree_of_read_less (ok : Analyzer.less.read d settings = .ok t) :
    Analysis.Less.tree d.text = .ok t := by
  unfold read at ok
  cases outcome : Analysis.Less.tree d.text with
  | error message => simp [outcome, Except.mapError] at ok
  | ok t' => simpa [outcome, Except.mapError] using ok

theorem HasBrokenName.exists_long (broken : a.HasBrokenName d) (ok : a.read d settings = .ok t) :
    ∃ s ∈ t.spans, ∃ line, Text.IsLine d.text.toList s.stop.line line ∧
      Text.byteLength line < s.stop.column := by
  obtain ⟨rfl, t', outcome, v, member, feed⟩ := broken
  obtain rfl := Except.ok.inj (outcome.symm.trans (tree_of_read_less ok))
  obtain ⟨s, line, span, here, long⟩ :=
    (Analysis.Less.isPartOf_of_tree outcome v member).beyond_of_feed feed
  refine ⟨s, ?_, line, here, long⟩
  rw [Analysis.Less.spans_of_tree outcome]
  exact List.mem_flatMap.2 ⟨v, member, Option.mem_toList.2 span⟩

theorem forall_isSpan_iff (ok : a.read d settings = .ok t) :
    (∀ s ∈ t.spans, IsSpan d.text s) ↔ ¬a.HasBrokenName d := by
  constructor
  · intro each broken
    obtain ⟨s, member, line, here, long⟩ := broken.exists_long ok
    exact Text.not_isWithin_of_long here long (each s member).2
  · intro whole
    by_cases other : a = .less
    · subst other
      have outcome := tree_of_read_less ok
      intro s member
      rw [Analysis.Less.spans_of_tree outcome] at member
      obtain ⟨v, among, span⟩ := List.mem_flatMap.1 member
      have part := Analysis.Less.isPartOf_of_tree outcome v among
      have plain : '\n' ∉ v.name.toList := fun feed => whole ⟨rfl, t, outcome, v, among, feed⟩
      have place : s ∈ v.span := Option.mem_toList.1 span
      exact ⟨part.isWithin_start s place, part.isWithin_stop plain s place⟩
    · exact TokenTree.EachSpan.iff_spans.1 (eachSpan_read other ok)

/-- In a text of single bytes a turn of the columns leaves all places, unless there is a broken
name. -/
theorem useCharColumns_eq_iff (ok : a.read d settings = .ok t) (ascii : isAscii d.text = true) :
    t.useCharColumns d.text = t ↔ ¬a.HasBrokenName d := by
  have turn : t.useCharColumns d.text = t.mapSpan (Span.map (turned d.text)) := rfl
  rw [turn, TokenTree.mapSpan_eq_iff]
  constructor
  · intro fixed broken
    obtain ⟨s, member, line, here, long⟩ := broken.exists_long ok
    exact Text.turned_ne_of_long here long (congrArg Span.stop (fixed s member))
  · intro whole s member
    exact ((forall_isSpan_iff ok).2 whole s member).map_turned ascii

/-- That the columns of texts of single bytes are not turned shows just when there is a broken name.
Whatever is read, all its places are then ranges of the text, with each column in its line, and a
turn of the columns leaves them. -/
theorem analyze_eq_turned_iff (a : Analyzer) (d : Document) (c : Config) :
    (a.analyze d c = a.analyzeTurned d c ↔ (isAscii d.text = true → ¬a.HasBrokenName d)) ∧
      ∀ t, a.read d (c.language d.language) = .ok t →
        ((∀ s ∈ t.spans, IsSpan d.text s) ↔ ¬a.HasBrokenName d) ∧
          (isAscii d.text = true → (t.useCharColumns d.text = t ↔ ¬a.HasBrokenName d)) := by
  refine ⟨?_, fun t ok => ⟨forall_isSpan_iff ok, useCharColumns_eq_iff ok⟩⟩
  cases reading : a.read d (c.language d.language) with
  | error failure =>
    have unbroken : ¬a.HasBrokenName d := by
      rintro ⟨rfl, t, outcome, -⟩
      rw [read, outcome] at reading
      cases reading
    have same : a.analyze d c = a.analyzeTurned d c := by
      rw [analyze, analyzeTurned, reading]
      rfl
    exact iff_of_true same (fun _ => unbroken)
  | ok t =>
    have turned : a.analyzeTurned d c = .ok (t.useCharColumns d.text) := by
      rw [analyzeTurned, reading]
      rfl
    rw [analyze_of_read reading, turned, Except.ok.injEq]
    split
    · next ascii =>
      rw [eq_comm, useCharColumns_eq_iff reading ascii]
      exact ⟨fun whole _ => whole, fun whole => whole ascii⟩
    · next other => exact iff_of_true rfl (fun ascii => absurd ascii other)

/-- Calls of two mixins, each on a line of its own. -/
def separateCalls : Document :=
  { language := "less", file := "a.less", text := ".a\x7b.b;\n.c;\x7d" }

theorem analyze_eq_turned_separateCalls :
    Analyzer.less.analyze separateCalls {} = Analyzer.less.analyzeTurned separateCalls {} ∧
      ∃ t, Analyzer.less.read separateCalls (({} : Config).language "less") = .ok t ∧
        t.spans.length = 2 ∧ ∀ s ∈ t.spans, IsSpan separateCalls.text s := by
  have names : (Analysis.Less.tree separateCalls.text).toOption.map
      (fun t => t.styles.map (·.name)) = some [".b", ".c"] := by decide +kernel
  have count : (Analyzer.less.read separateCalls (({} : Config).language "less")).toOption.map
      (fun t => t.spans.length) = some 2 := by decide +kernel
  have whole : ¬Analyzer.less.HasBrokenName separateCalls := by
    rintro ⟨-, t, ok, v, member, feed⟩
    rw [ok] at names
    have among : v.name ∈ [".b", ".c"] := Option.some.inj names ▸ List.mem_map_of_mem member
    have plain : ∀ name ∈ [".b", ".c"], '\n' ∉ name.toList := by decide
    exact plain v.name among feed
  obtain ⟨same, places⟩ := analyze_eq_turned_iff .less separateCalls {}
  refine ⟨same.2 (fun _ => whole), ?_⟩
  cases reading : Analyzer.less.read separateCalls (({} : Config).language "less") with
  | error failure =>
    rw [reading] at count
    cases count
  | ok t =>
    rw [reading] at count
    exact ⟨t, rfl, Option.some.inj count, (places t reading).1.2 whole⟩

/-- Calls of two mixins without a semicolon between them. -/
def joinedCalls : Document :=
  { language := "less", file := "a.less", text := ".a\x7b.b\n.c;\x7d" }

theorem analyze_ne_turned_joinedCalls :
    isAscii joinedCalls.text = true ∧
      (Analyzer.less.analyze joinedCalls {}).toOption.map (fun t => t.styles.map (·.span)) =
        some [some (.onLine 0 3 5)] ∧
      Analyzer.less.analyze joinedCalls {} ≠ Analyzer.less.analyzeTurned joinedCalls {} := by
  have shown : (Analyzer.less.analyze joinedCalls {}).toOption.map
      (fun t => t.styles.map (·.span)) = some [some (.onLine 0 3 5)] := by decide +kernel
  have turned : (Analyzer.less.analyzeTurned joinedCalls {}).toOption.map
      (fun t => t.styles.map (·.span)) = some [some (.onLine 0 3 2)] := by decide +kernel
  refine ⟨by decide +kernel, shown, fun same => ?_⟩
  rw [same, turned] at shown
  revert shown
  decide

end CodeOutline.Analyzer
