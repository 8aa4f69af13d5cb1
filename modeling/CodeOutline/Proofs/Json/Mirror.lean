import CodeOutline.Analyzer
import CodeOutline.Proofs.Json.Refusals
import CodeOutline.Proofs.Text.Points

/-!
The outline of a JSON document mirrors its value: kinds, names, order, scalar texts and
ranges, at every depth. Only a document with a plus sign in an exponent has no outline.
-/

set_option autoImplicit false

namespace CodeOutline

namespace Analysis.Json

open Syntax

/-! Points -/

mutual

theorem Source.mapSpan_mirror (f : Point → Point) (point : List Char → Point) (name : String)
    (before : List Char) : (v : Source) →
    (v.mirror point name before).mapSpan (Span.map f) = v.mirror (f ∘ point) name before
  | .scalar s => rfl
  | .empty c gap => rfl
  | .filled c items => by
    simp only [Source.mirror, DataToken.mapSpan, items.mapSpan_mirror]
    rfl

theorem Items.mapSpan_mirror {c : Container} (f : Point → Point) (point : List Char → Point)
    (before : List Char) (index : Nat) : (items : Items c) →
    mapDataSpans (Span.map f) (items.mirror point before index) =
      items.mirror (f ∘ point) before index
  | .last gap label value behind => by
    simp only [Items.mirror, mapDataSpans, value.mapSpan_mirror]
  | .more gap label value behind others => by
    simp only [Items.mirror, mapDataSpans, value.mapSpan_mirror, others.mapSpan_mirror]

end

section Congruence

variable {point point' : List Char → Point} {whole : List Char}

theorem extent_congr (agree : ∀ cs, cs <+: whole → point cs = point' cs) {before cs : List Char}
    (within : before ++ cs <+: whole) : extent point before cs = extent point' before cs := by
  rw [extent, extent, agree before ((List.prefix_append before cs).trans within),
    agree _ within]

mutual

theorem Source.mirror_congr (agree : ∀ cs, cs <+: whole → point cs = point' cs) (name : String)
    (before : List Char) : (v : Source) → before ++ v.chars <+: whole →
    v.mirror point name before = v.mirror point' name before
  | .scalar s, within => by
    have range : extent point before s.chars = extent point' before s.chars :=
      extent_congr agree within
    simp only [Source.mirror, range]
  | .empty c gap, within => by
    simp only [Source.mirror]
    rw [extent_congr agree within]
  | .filled c items, within => by
    have inside : before ++ [c.opening] ++ items.chars <+: whole := by
      refine .trans ⟨[c.closing], ?_⟩ within
      simp [Source.chars]
    simp only [Source.mirror]
    rw [extent_congr agree within, items.mirror_congr agree _ 0 inside]

theorem Items.mirror_congr {c : Container} (agree : ∀ cs, cs <+: whole → point cs = point' cs)
    (before : List Char) (index : Nat) : (items : Items c) → before ++ items.chars <+: whole →
    items.mirror point before index = items.mirror point' before index
  | .last gap label value behind, within => by
    have first : before ++ (gap.chars ++ c.labelChars label) ++ value.chars <+: whole := by
      refine .trans ⟨behind.chars, ?_⟩ within
      simp [Items.chars]
    simp only [Items.mirror]
    rw [value.mirror_congr agree _ _ first]
  | .more gap label value behind others, within => by
    have first : before ++ (gap.chars ++ c.labelChars label) ++ value.chars <+: whole := by
      refine .trans ⟨behind.chars ++ ',' :: others.chars, ?_⟩ within
      simp [Items.chars]
    have further : before ++ (gap.chars ++ (c.labelChars label ++ (value.chars ++
        (behind.chars ++ [','])))) ++ others.chars <+: whole := by
      refine .trans ⟨[], ?_⟩ within
      simp [Items.chars]
    simp only [Items.mirror]
    rw [value.mirror_congr agree _ _ first, others.mirror_congr agree _ _ further]

end

end Congruence

/-! Documents -/

theorem read?_chars (lead tail : Gap) {v : Source} (plain : v.hasPlus = false) :
    ∃ n root, IsValue v lead.chars n ∧ root.children = [n] ∧
      Grammar.Json.read? (lead.chars ++ v.chars ++ tail.chars) = some root := by
  have stops := tail.stopsAt_continues (Scan.stopsAt_nil continues)
  have skips := tail.skips (Scan.stopsAt_nil opensGap)
  have ends := value_fails tail (Scan.stopsAt_nil opensGap) (Scan.stopsAt_nil opensValue)
    (lead.chars ++ v.chars)
  rw [List.append_nil] at stops ends
  obtain ⟨n, isValue, first⟩ := v.read plain [] lead tail.chars stops
  rw [List.nil_append, ← List.append_assoc] at first
  have filled := List.length_pos_iff.2 v.chars_ne_nil
  have moves : (Cursor.between (lead.chars ++ v.chars) tail.chars).place.offset ≠
      (Cursor.between [] (lead.chars ++ v.chars ++ tail.chars)).place.offset := by
    simp only [Cursor.between, Place.behind_offset, List.length_append, List.length_nil]
    omega
  have enough : max (64 * v.chars.length) 1 + 1 ≤
      Grammar.depthLimit (lead.chars ++ v.chars ++ tail.chars).length := by
    simp only [Grammar.depthLimit, List.length_append]
    omega
  exact ⟨n, _, isValue, rfl,
    Grammar.read?_of_reads "document" (first.many_cons moves (.many_nil ends)) skips enough⟩

theorem tree?_chars (lead tail : Gap) {v : Source} (plain : v.hasPlus = false) :
    tree? (String.ofList (lead.chars ++ v.chars ++ tail.chars)) =
      some { TokenTree.empty with data := some (v.mirror bytePoint "" lead.chars) } := by
  obtain ⟨n, root, isValue, children, reads⟩ := read?_chars lead tail plain
  have found : root.named.find? (·.kind != "comment") = some n := by
    simp [Node.named, children, isValue.named, isValue.kind]
  simp only [tree?, String.toList_ofList, reads, Option.map_some, found, isValue.token]
  rfl

end Analysis.Json

namespace Analyzer

open Analysis.Json

private theorem useCharColumns_data (root : DataToken) (text : String) :
    { TokenTree.empty with data := some root }.useCharColumns text =
      { TokenTree.empty with data := some (root.mapSpan
          (Span.map (Text.charPoint (Text.splitChars (· == '\n') text.toList)))) } := rfl

/-- Every JSON value without a plus sign in an exponent, however it is written and whatever blanks
stand around its tokens, is outlined as the tree that mirrors it; with such a sign it is refused.
The ranges in the tree are exact: the point behind a beginning of the text is the point behind no
other beginning. -/
theorem json_mirrors (d : Document) (c : Config) (lead tail : Gap) (v : Source) :
    Analyzer.json.analyze
        { d with text := String.ofList (lead.chars ++ v.chars ++ tail.chars) } c =
      (if v.hasPlus then .error (.parseFailure d.file (syntaxError none))
      else .ok { TokenTree.empty with data := some (v.mirror Text.pointBehind "" lead.chars) }) ∧
    ∀ front front', front <+: lead.chars ++ v.chars ++ tail.chars →
      front' <+: lead.chars ++ v.chars ++ tail.chars →
      Text.pointBehind front = Text.pointBehind front' → front = front' := by
  refine ⟨?_, fun _ _ => Text.pointBehind_inj⟩
  let text := lead.chars ++ v.chars ++ tail.chars
  have within : lead.chars ++ v.chars <+: text := List.prefix_append _ _
  cases signed : v.hasPlus with
  | true =>
    have refused : tree? (String.ofList (lead.chars ++ v.chars ++ tail.chars)) = none := by
      rw [tree?, String.toList_ofList, read?_eq_none_of_hasPlus lead tail signed]
      rfl
    simp only [analyze, read, orSyntaxError, refused]
    rfl
  | false =>
    simp only [analyze, read, orSyntaxError, tree?_chars lead tail signed, Except.bind, bind, pure,
      Except.pure]
    split
    · next ascii =>
      have points (cs : List Char) (front : cs <+: text) : bytePoint cs = Text.pointBehind cs := by
        refine Text.point_behind_of_ascii fun d member => ?_
        rw [Text.isAscii, String.toList_ofList, List.all_eq_true] at ascii
        exact of_decide_eq_true (ascii d (front.subset member))
      rw [v.mirror_congr points "" lead.chars within]
      rfl
    · have points (cs : List Char) (front : cs <+: text) :
          (Text.charPoint (Text.splitChars (· == '\n') text) ∘ bytePoint) cs =
            Text.pointBehind cs := by
        obtain ⟨rest, whole⟩ := front
        rw [← whole]
        exact Text.charPoint_behind cs rest
      rw [useCharColumns_data, String.toList_ofList, v.mapSpan_mirror,
        v.mirror_congr points "" lead.chars within]
      rfl

/-- An array of one number with a plus sign in its exponent. -/
theorem json_plus_refused :
    let number : Number := {
      isNegative := false, whole := .other '1' (by decide) ⟨[], nofun⟩, fraction := none
      exponent := some {
        isCapital := false, sign := .plus, digits := ⟨['5'], List.forall_mem_singleton.2 rfl⟩
        filled := List.cons_ne_nil _ _ } }
    let v : Source := .filled .array (.last .empty () (.scalar (.number number)) .empty)
    String.ofList v.chars = "[1e+5]" ∧
      Analyzer.json.analyze { language := "json", file := "a.json", text := "[1e+5]" } {} =
        .error (.parseFailure "a.json" "syntax error") := by
  intro number v
  have written : String.ofList v.chars = "[1e+5]" := by decide
  have refused : tree? "[1e+5]" = none := by
    have unread := read?_eq_none_of_hasPlus .empty .empty (v := v) (by decide)
    rw [tree?, ← written, String.toList_ofList]
    simpa [Gap.empty] using unread
  exact ⟨written, by simp only [analyze, read, orSyntaxError, refused]; rfl⟩

end Analyzer

end CodeOutline
