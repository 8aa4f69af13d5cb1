import CodeOutline.Proofs.Less.Places
import CodeOutline.Proofs.Text.Occurrence

/-!
The places in outlines of style sheets with nested rules, as ranges of the text. A place begins at a
point of the text and takes as many bytes of one line as the name has, so it ends at a point of the
text just when the name has no line feed.
-/

set_option autoImplicit false

namespace CodeOutline.Analysis.Less

open Syntax (Place)
open Text (IsLine IsSpan IsWithin byteLength turned)

/-! ## All places are those of variables and declarations -/

def HasOnlyStyles (t : TokenTree) : Prop :=
  ∃ (vars : List VarToken) (nodes : SelectorMap), t = { vars, nodes }

section Styles

variable {level next : Level} {t grown : TokenTree}

theorem hasOnlyStyles_step {s : Statement} (only : HasOnlyStyles t)
    (taken : step level t s = .ok (next, grown)) : HasOnlyStyles grown := by
  unfold step at taken
  dsimp only at taken
  split at taken <;> (try split at taken) <;> cases taken
  all_goals first
    | exact only
    | obtain ⟨vars, nodes, rfl⟩ := only
      exact ⟨_, _, rfl⟩

theorem hasOnlyStyles_walk {ss : List Statement} (only : HasOnlyStyles t)
    (read : walk level t ss = .ok grown) : HasOnlyStyles grown := by
  induction ss generalizing level t with
  | nil =>
    obtain rfl := Except.ok.inj read
    exact only
  | cons s ss ih =>
    cases taken : step level t s with
    | error place =>
      rw [walk, taken] at read
      cases read
    | ok behind =>
      obtain ⟨next, grown'⟩ := behind
      rw [walk_of_step taken] at read
      exact ih (hasOnlyStyles_step only taken) read

theorem HasOnlyStyles.spans_eq (only : HasOnlyStyles t) :
    t.spans = t.styles.flatMap (fun v => v.span.toList) := by
  obtain ⟨vars, nodes, rfl⟩ := only
  simp [TokenTree.spans, TokenTree.styles, SelectorMap.spans, entitySpans, OrderedMap.empty,
    List.flatMap_assoc]

theorem spans_of_tree {text : String} (read : tree text = .ok t) :
    t.spans = t.styles.flatMap (fun v => v.span.toList) := by
  unfold tree at read
  split at read
  · next t' walked =>
    obtain rfl := Except.ok.inj read
    have start : HasOnlyStyles .empty := ⟨[], .empty, rfl⟩
    exact (hasOnlyStyles_walk start walked).spans_eq
  · cases read

end Styles

/-! ## Names as parts of the text -/

/-- The name is a part of the text, with its comments blanked, and its place begins where the part
does. -/
def IsPartOf (text : String) (v : VarToken) : Prop :=
  ∃ before source after, segments (.plain 0) text.toList = before ++ source ++ after ∧
    source.flatMap Segment.blanked = v.name.toList ∧
      v.span = some (.onLine (Place.behind (before.flatMap Segment.blanked)).line
        (Place.behind (before.flatMap Segment.blanked)).column (Text.byteCount v.name.toList))

theorem isPartOf_of_declaration? {text : String} {s : Statement} {v : VarToken}
    (member : s ∈ statements (blankComments text.toList)) (declares : declaration? s = some v) :
    IsPartOf text v := by
  by_cases filled : v.name = ""
  · -- No character of the name tells where it stands, but the first one of the statement does.
    obtain ⟨before, after, value, whole, read, -, span⟩ := parts_of_declaration? member declares
    have solid := (isSolid_trimChars s.text).first
    cases trimmed : Text.trimChars s.text with
    | nil =>
      rw [trimmed] at read
      cases read
    | cons c rest =>
      rw [trimmed] at solid
      rw [trimmed, blankComments, blankFrom_eq_flatMap, List.append_assoc,
        List.cons_append] at whole
      obtain ⟨front, behind, parts, blank, -⟩ := exists_code whole (solid c rfl)
      refine ⟨front, [], .code c :: behind, ?_, ?_, ?_⟩
      · rw [parts, List.append_nil]
      · rw [filled]
        rfl
      · rw [blank, span]
  · obtain ⟨before, source, after, origin, -, span⟩ :=
      exists_isSourceOf (standsIn_of_declaration? member declares) filled
    exact ⟨before, source, after, origin.parts, origin.name, span⟩

theorem isPartOf_of_tree {text : String} {t : TokenTree} (read : tree text = .ok t) :
    ∀ v ∈ t.styles, IsPartOf text v :=
  forall_tree (fun _ member _ declares => isPartOf_of_declaration? member declares)
    (fun _ part => part) read

/-! ## Blanked segments -/

theorem byteLength_blanked (ss : List Segment) :
    byteLength (ss.flatMap Segment.blanked) = byteLength (ss.flatMap Segment.text) := by
  have spaces (n : Nat) : byteLength (List.replicate n ' ') = n := by
    induction n with
    | zero => rfl
    | succ n ih =>
      have size : ' '.utf8Size = 1 := rfl
      rw [List.replicate_succ, byteLength, ih, size, Nat.add_comm]
  have comment (cs : List Char) : byteLength (cs.flatMap blanked) = byteLength cs := by
    induction cs with
    | nil => rfl
    | cons c cs ih =>
      rw [List.flatMap_cons, Text.byteLength_append, ih, byteLength]
      congr 1
      unfold blanked
      split
      · next feed => rw [feed]; rfl
      · exact spaces _
  induction ss with
  | nil => rfl
  | cons s ss ih =>
    rw [List.flatMap_cons, List.flatMap_cons, Text.byteLength_append, Text.byteLength_append, ih]
    cases s with
    | code c => rfl
    | comment cs => rw [Segment.blanked, Segment.text, comment]

theorem feed_of_blanked {ss : List Segment} (feed : '\n' ∈ ss.flatMap Segment.blanked) :
    '\n' ∈ ss.flatMap Segment.text := by
  obtain ⟨s, member, inside⟩ := List.mem_flatMap.1 feed
  refine List.mem_flatMap.2 ⟨s, member, ?_⟩
  cases s with
  | code c => exact inside
  | comment cs =>
    obtain ⟨c, among, here⟩ := List.mem_flatMap.1 inside
    unfold blanked at here
    split at here
    · next same => exact same ▸ among
    · have space := List.eq_of_mem_replicate here
      cases space

namespace IsPartOf

variable {text : String} {v : VarToken} (part : IsPartOf text v)

include part

theorem isWithin_start : ∀ s ∈ v.span, IsWithin text s.start := by
  obtain ⟨before, source, after, parts, -, span⟩ := part
  have whole : text.toList =
      before.flatMap Segment.text ++ (source ++ after).flatMap Segment.text := by
    rw [← List.flatMap_append, ← List.append_assoc, ← parts, flatMap_text_segments]
  rw [span]
  rintro s ⟨⟩
  show IsWithin text (Place.behind (before.flatMap Segment.blanked)).point
  rw [point_behind_blanked]
  exact Text.isWithin_behind whole

theorem isWithin_stop (plain : '\n' ∉ v.name.toList) : ∀ s ∈ v.span, IsWithin text s.stop := by
  obtain ⟨before, source, after, parts, name, span⟩ := part
  have whole : text.toList =
      (before ++ source).flatMap Segment.text ++ after.flatMap Segment.text := by
    rw [← List.flatMap_append, ← parts, flatMap_text_segments]
  have stop : (Place.behind ((before ++ source).flatMap Segment.blanked)).point =
      ⟨(Place.behind (before.flatMap Segment.blanked)).line,
        (Place.behind (before.flatMap Segment.blanked)).column +
          Text.byteCount v.name.toList⟩ := by
    rw [List.flatMap_append, name, Place.behind_append, point_foldl_of_noFeed plain,
      Text.byteCount_eq_byteLength]
  rw [span]
  rintro s ⟨⟩
  show IsWithin text ⟨_, _⟩
  rw [← stop, point_behind_blanked]
  exact Text.isWithin_behind whole

theorem beyond_of_feed (feed : '\n' ∈ v.name.toList) : ∃ s line, v.span = some s ∧
    IsLine text.toList s.stop.line line ∧ byteLength line < s.stop.column := by
  obtain ⟨before, source, after, parts, name, span⟩ := part
  have whole : text.toList = before.flatMap Segment.text ++ source.flatMap Segment.text ++
      after.flatMap Segment.text := by
    rw [← List.flatMap_append, ← List.flatMap_append, ← parts, flatMap_text_segments]
  have start := point_behind_blanked before
  obtain ⟨front, line, lines, plain, starts, point⟩ :=
    Text.exists_line_behind (before.flatMap Segment.text)
  rw [point] at start
  obtain ⟨here, later, broken, first⟩ := List.eq_append_cons_of_mem (feed_of_blanked (name ▸ feed))
  have bytes : byteLength here < Text.byteCount v.name.toList := by
    rw [Text.byteCount_eq_byteLength, ← name, byteLength_blanked, broken, Text.byteLength_append]
    have positive := '\n'.utf8Size_pos
    rw [byteLength]
    omega
  have column : (Place.behind (before.flatMap Segment.blanked)).column = byteLength line :=
    congrArg Point.column start
  have number : (Place.behind (before.flatMap Segment.blanked)).line = front.count '\n' :=
    congrArg Point.line start
  refine ⟨_, line ++ here, span, ⟨?_, front, '\n' :: later ++ after.flatMap Segment.text, ?_, ?_,
    starts, .inr ⟨_, rfl⟩⟩, ?_⟩
  · rw [List.mem_append, not_or]
    exact ⟨plain, first⟩
  · rw [whole, lines, broken]
    simp only [List.append_assoc, List.cons_append]
  · exact number.symm
  · show byteLength (line ++ here) < _ + _
    rw [Text.byteLength_append, column]
    omega

end IsPartOf

end CodeOutline.Analysis.Less
