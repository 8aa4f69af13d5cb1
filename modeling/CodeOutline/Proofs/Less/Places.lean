import CodeOutline.Proofs.Analysis.Distinct
import CodeOutline.Proofs.Less.Acceptance
import CodeOutline.Proofs.Less.Braces
import CodeOutline.Proofs.Less.Segments
import CodeOutline.Proofs.Text.Occurrence
import CodeOutline.Proofs.Token.Placed

/-!
The places in the outline of a style sheet. A statement is a part of the text from the place on
where it starts; the name of what it declares is the beginning of the statement behind its blanks.
Names are read from the text with blanked comments, but their places are those of the text itself:
each begins at the first character of its name, outside of all comments.
-/

set_option autoImplicit false

namespace CodeOutline

/-- The variables and the style declarations of a tree. -/
def TokenTree.styles (t : TokenTree) : List VarToken :=
  t.vars ++ t.nodes.entries.flatMap (·.2)

theorem TokenTree.styles_mapSpan (t : TokenTree) (f : Span → Span) :
    (t.mapSpan f).styles = t.styles.map (·.mapSpan f) := by
  have nodes : (t.mapSpan f).nodes.entries.flatMap (·.2) =
      t.nodes.entries.flatMap (fun entry => entry.2.map (·.mapSpan f)) := List.flatMap_map ..
  rw [styles, nodes, styles, List.map_append, List.map_flatMap]
  rfl

namespace Analysis.Less

open Syntax (Place)

/-! Statements -/

/-- Every statement is a part of the text, and it starts behind what is in front of it. The
induction is on what is still to be read; what was read of the first statement is known. -/
theorem parts_of_mem_statementsFrom {s : ScanState} {depth : Nat} {start place : Place}
    {text cs : List Char} {st : Statement} (here : place = text.reverse.foldl Place.next start)
    (member : st ∈ statementsFrom s depth start place text cs) :
    ∃ before after, text.reverse ++ cs = before ++ st.text ++ after ∧
      st.start = before.foldl Place.next start := by
  induction cs generalizing s depth start place text with
  | nil =>
    obtain rfl := List.mem_singleton.1 member
    exact ⟨[], [], rfl, rfl⟩
  | cons c cs ih =>
    have next : place.next c = (c :: text).reverse.foldl Place.next start := by
      rw [List.reverse_cons, List.foldl_append, ← here]
      rfl
    rw [statementsFrom_cons] at member
    split at member
    · rcases List.mem_cons.1 member with rfl | later
      · exact ⟨[], c :: cs, rfl, rfl⟩
      · have fresh : place.next c = [].reverse.foldl Place.next (place.next c) := rfl
        obtain ⟨before, after, whole, begins⟩ := ih fresh later
        refine ⟨(c :: text).reverse ++ before, after, ?_, ?_⟩
        · rw [List.reverse_nil, List.nil_append] at whole
          rw [whole]
          simp
        · rw [begins, List.foldl_append, ← next]
    · obtain ⟨before, after, whole, begins⟩ := ih next member
      refine ⟨before, after, ?_, begins⟩
      rw [← whole]
      simp

theorem parts_of_mem_statements {cs : List Char} {st : Statement} (member : st ∈ statements cs) :
    ∃ before after, cs = before ++ st.text ++ after ∧ st.start = Place.behind before := by
  have fresh : Place.origin = [].reverse.foldl Place.next .origin := rfl
  exact parts_of_mem_statementsFrom fresh member

/-! Names -/

/-- The characters of a name, with no blank at its ends. -/
structure IsSolid (name : List Char) : Prop where
  first : ∀ c ∈ name.head?, Text.isBlank c = false
  last : ∀ c ∈ name.getLast?, Text.isBlank c = false

theorem isSolid_trimChars (cs : List Char) : IsSolid (Text.trimChars cs) :=
  ⟨Text.solid_head?_trimChars cs, Text.solid_getLast?_trimRight _⟩

theorem head?_of_leads {xs ys : List Char} (front : xs <+: ys) :
    ∀ c ∈ xs.head?, c ∈ ys.head? := by
  intro c first
  obtain ⟨rest, rfl⟩ := List.head?_eq_some_iff.1 first
  obtain ⟨more, rfl⟩ := front
  rfl

theorem trimChars_leads {xs ys : List Char} (solid : IsSolid ys) (front : xs <+: ys) :
    Text.trimChars xs <+: ys := by
  have first : ∀ c ∈ xs.head?, Text.isBlank c = false :=
    fun c head => solid.first c (head?_of_leads front c head)
  have left : Text.trimLeft xs = xs := by
    cases xs with
    | nil => rfl
    | cons c xs => exact List.dropWhile_cons_of_neg (by simp [first c rfl])
  rw [Text.trimChars, left]
  exact (Text.trimRight_leads xs).trans front

theorem nameAndValue?_leads {trimmed name : List Char} {value : String} (solid : IsSolid trimmed)
    (declares : nameAndValue? trimmed = some (name, value)) : name <+: trimmed ∧ IsSolid name := by
  have whole {mark before rest : List Char}
      (cut : Text.cutFirst? mark trimmed = some (before, rest)) : before <+: trimmed := by
    rw [← Text.append_of_cutFirst? cut, List.append_assoc]
    exact List.prefix_append _ _
  have mixin (called : (mixinCall trimmed).1 = name) : name <+: trimmed ∧ IsSolid name := by
    unfold mixinCall at called
    split at called
    · next before rest cut =>
      subst called
      have front := (Text.trimRight_leads before).trans (whole cut)
      exact ⟨front, fun c head => solid.first c (head?_of_leads front c head),
        Text.solid_getLast?_trimRight before⟩
    · subst called
      exact ⟨List.prefix_refl _, solid⟩
  unfold nameAndValue? at declares
  split at declares
  · cases declares
  · exact mixin (congrArg Prod.fst (Option.some.inj declares))
  · exact mixin (congrArg Prod.fst (Option.some.inj declares))
  · obtain ⟨⟨before, rest⟩, cut, same⟩ := Option.map_eq_some_iff.1 declares
    obtain ⟨rfl, -⟩ := Prod.mk.inj same
    exact ⟨trimChars_leads solid (whole cut), isSolid_trimChars before⟩

/-- A statement declares the name and the value. Its blanks and what comes before it are in front
of the name. -/
def IsDeclaredBehind (cs before : List Char) (v : VarToken) : Prop :=
  ∃ st ∈ statements cs, ∃ lead after, cs = lead ++ st.text ++ after ∧
    st.start = Place.behind lead ∧ before = lead ++ st.text.takeWhile Text.isBlank ∧
      ∃ value, nameAndValue? (Text.trimChars st.text) = some (v.name.toList, value) ∧
        v.value = some value

/-- The name of a declaration stands in the text from its place on. -/
structure StandsIn (cs : List Char) (v : VarToken) : Prop where
  solid : IsSolid v.name.toList
  parts : ∃ before after, cs = before ++ v.name.toList ++ after ∧ IsDeclaredBehind cs before v ∧
    v.span = some (.onLine (Place.behind before).line (Place.behind before).column
      (Text.byteCount v.name.toList))

theorem parts_of_declaration? {cs : List Char} {st : Statement} {v : VarToken}
    (member : st ∈ statements cs) (declares : declaration? st = some v) :
    ∃ before after value, cs = before ++ Text.trimChars st.text ++ after ∧
      nameAndValue? (Text.trimChars st.text) = some (v.name.toList, value) ∧
      IsDeclaredBehind cs before v ∧
      v.span = some (.onLine (Place.behind before).line (Place.behind before).column
        (Text.byteCount v.name.toList)) := by
  obtain ⟨before, after, whole, begins⟩ := parts_of_mem_statements member
  obtain ⟨⟨name, value⟩, read, rfl⟩ := Option.map_eq_some_iff.1 declares
  obtain ⟨behind, split⟩ := Text.exists_trimChars_append st.text
  have place : (st.text.takeWhile Text.isBlank).foldl Place.next st.start =
      Place.behind (before ++ st.text.takeWhile Text.isBlank) := by
    rw [begins, Place.behind_append]
  rw [← String.toList_ofList (l := name)] at read
  refine ⟨before ++ st.text.takeWhile Text.isBlank, behind ++ after, value, ?_, read,
    ⟨st, member, before, after, whole, begins, rfl, value, read, rfl⟩, ?_⟩
  · rw [whole]
    nth_rewrite 1 [split]
    simp only [List.append_assoc]
  · rw [String.toList_ofList, ← place]

theorem standsIn_of_declaration? {cs : List Char} {st : Statement} {v : VarToken}
    (member : st ∈ statements cs) (declares : declaration? st = some v) : StandsIn cs v := by
  obtain ⟨before, after, value, whole, read, behind, span⟩ := parts_of_declaration? member declares
  obtain ⟨⟨more, front⟩, solid⟩ := nameAndValue?_leads (isSolid_trimChars st.text) read
  refine ⟨solid, before, more ++ after, ?_, behind, span⟩
  rw [whole, ← front]
  simp only [List.append_assoc]

/-! What the reading shows -/

section Reading

variable {P : VarToken → Prop}

/-- The declarations that a level holds. -/
def Level.held : Level → List VarToken
  | .top | .passing none _ => []
  | .body _ ds | .passing (some (_, ds)) _ => ds

theorem forall_addVariable {t : TokenTree} {v : VarToken} (tree : ∀ w ∈ t.styles, P w)
    (new : P v) : ∀ w ∈ (t.addVariable v).styles, P w := by
  obtain ⟨vars, nodes⟩ := List.forall_mem_append.1 tree
  exact List.forall_mem_append.2 ⟨forall_insertNew vars new, nodes⟩

theorem forall_addDeclarations {t : TokenTree} {selector : String} {ds : List VarToken}
    (tree : ∀ w ∈ t.styles, P w) (new : ∀ w ∈ ds, P w) :
    ∀ w ∈ (t.addDeclarations selector ds).styles, P w := by
  obtain ⟨vars, nodes⟩ := List.forall_mem_append.1 tree
  have grouped : ∀ entry ∈ t.nodes.entries, ∀ w ∈ entry.2, P w := fun entry member w inside =>
    nodes w (List.mem_flatMap.2 ⟨entry, member, inside⟩)
  have extended : ∀ entry ∈ (t.nodes.extend selector ds).entries, ∀ w ∈ entry.2, P w := by
    refine forall_upsertEntry (R := fun ws => ∀ w ∈ ws, P w) grouped (fun o old => ?_)
    refine List.forall_mem_append.2 ⟨?_, new⟩
    cases o with
    | none => nofun
    | some ws => exact old ws rfl
  refine List.forall_mem_append.2 ⟨vars, fun w member => ?_⟩
  obtain ⟨entry, among, inside⟩ := List.mem_flatMap.1 member
  exact extended entry among w inside

variable {level next : Level} {t grown : TokenTree} {s : Statement}

theorem forall_step (declared : ∀ v ∈ declaration? s, P v)
    (static : ∀ v, P v → P { v with isStatic := true }) (held : ∀ w ∈ level.held, P w)
    (tree : ∀ w ∈ t.styles, P w) (taken : step level t s = .ok (next, grown)) :
    (∀ w ∈ next.held, P w) ∧ ∀ w ∈ grown.styles, P w := by
  have more {ds : List VarToken} (held : ∀ w ∈ ds, P w) :
      ∀ w ∈ ds ++ (declaration? s).toList, P w :=
    List.forall_mem_append.2 ⟨held, fun w member => declared w (Option.mem_toList.1 member)⟩
  obtain ⟨text, start, ending⟩ := s
  cases level with
  | top =>
    cases ending with
    | eof =>
      obtain ⟨rfl, rfl⟩ := Prod.mk.inj (Except.ok.inj taken)
      exact ⟨held, tree⟩
    | closing => cases taken
    | semicolon =>
      simp only [step] at taken
      split at taken
      · next v declares =>
        obtain ⟨rfl, rfl⟩ := Prod.mk.inj (Except.ok.inj taken)
        split at declares
        · exact ⟨held, forall_addVariable tree (static v (declared v declares))⟩
        · cases declares
      · obtain ⟨rfl, rfl⟩ := Prod.mk.inj (Except.ok.inj taken)
        exact ⟨held, tree⟩
    | opening =>
      simp only [step] at taken
      split at taken
      · obtain ⟨rfl, rfl⟩ := Prod.mk.inj (Except.ok.inj taken)
        exact ⟨held, tree⟩
      · obtain ⟨rfl, rfl⟩ := Prod.mk.inj (Except.ok.inj taken)
        exact ⟨List.forall_mem_nil _, tree⟩
  | body selector ds =>
    cases ending with
    | eof => cases taken
    | closing =>
      obtain ⟨rfl, rfl⟩ := Prod.mk.inj (Except.ok.inj taken)
      exact ⟨List.forall_mem_nil _, forall_addDeclarations tree (more held)⟩
    | semicolon =>
      obtain ⟨rfl, rfl⟩ := Prod.mk.inj (Except.ok.inj taken)
      exact ⟨more held, tree⟩
    | opening =>
      obtain ⟨rfl, rfl⟩ := Prod.mk.inj (Except.ok.inj taken)
      exact ⟨held, tree⟩
  | passing rule depth =>
    cases ending with
    | eof => cases depth <;> cases taken
    | semicolon =>
      cases depth <;> obtain ⟨rfl, rfl⟩ := Prod.mk.inj (Except.ok.inj taken) <;> exact ⟨held, tree⟩
    | opening =>
      cases depth <;> obtain ⟨rfl, rfl⟩ := Prod.mk.inj (Except.ok.inj taken) <;>
        rcases rule with _ | ⟨_, _⟩ <;> exact ⟨held, tree⟩
    | closing =>
      cases depth <;> obtain ⟨rfl, rfl⟩ := Prod.mk.inj (Except.ok.inj taken) <;>
        rcases rule with _ | ⟨_, _⟩ <;> exact ⟨held, tree⟩

theorem forall_walk {ss : List Statement} (declared : ∀ s ∈ ss, ∀ v ∈ declaration? s, P v)
    (static : ∀ v, P v → P { v with isStatic := true }) (held : ∀ w ∈ level.held, P w)
    (tree : ∀ w ∈ t.styles, P w) (read : walk level t ss = .ok grown) :
    ∀ w ∈ grown.styles, P w := by
  induction ss generalizing level t with
  | nil =>
    obtain rfl := Except.ok.inj read
    exact tree
  | cons s ss ih =>
    obtain ⟨first, later⟩ := List.forall_mem_cons.1 declared
    cases taken : step level t s with
    | error place =>
      rw [walk, taken] at read
      cases read
    | ok behind =>
      obtain ⟨next, grown'⟩ := behind
      rw [walk_of_step taken] at read
      obtain ⟨held', tree'⟩ := forall_step first static held tree taken
      exact ih later held' tree' read

theorem forall_tree {text : String} (declared : ∀ s ∈ statements (blankComments text.toList),
      ∀ v ∈ declaration? s, P v)
    (static : ∀ v, P v → P { v with isStatic := true }) (read : tree text = .ok grown) :
    ∀ v ∈ grown.styles, P v := by
  unfold tree at read
  split at read
  · next t' walked =>
    obtain rfl := Except.ok.inj read
    have nothing : Level.top.held = [] ∧ TokenTree.empty.styles = [] := ⟨rfl, rfl⟩
    refine forall_walk declared static ?_ ?_ walked
    · rw [nothing.1]
      exact List.forall_mem_nil _
    · rw [nothing.2]
      exact List.forall_mem_nil _
  · cases read

theorem standsIn_of_tree {text : String} {t : TokenTree} (read : tree text = .ok t) :
    ∀ v ∈ t.styles, StandsIn (blankComments text.toList) v :=
  forall_tree (fun _ member _ declares => standsIn_of_declaration? member declares)
    (fun _ stands => ⟨stands.solid, stands.parts⟩) read

end Reading

/-! Sources of names -/

/-- A part of the text, and it is a name when its comments are blanked. It begins with a character
outside of comments. -/
structure IsSourceOf (text name : String) (before source after : List Segment) : Prop where
  parts : segments (.plain 0) text.toList = before ++ source ++ after
  comments : ∀ cs, .comment cs ∈ before ++ source ++ after → IsComment cs
  name : source.flatMap Segment.blanked = name.toList
  begins : ∃ c rest, source = .code c :: rest

/-- There is no comment and no line feed among the segments. -/
def IsUnbroken (source : List Segment) : Prop := ∀ s ∈ source, ∃ c, s = .code c ∧ c ≠ '\n'

/-- The token has a place. It begins, in lines and characters of the text itself, behind what is in
front of a source of the name, where the statement stands that declares it; and a source without
comments and line feeds is the name as it is, and the place ends behind it. -/
def IsPlacedIn (text : String) (v : VarToken) : Prop :=
  ∃ before source after, IsSourceOf text v.name before source after ∧
    IsDeclaredBehind (blankComments text.toList) (before.flatMap Segment.blanked) v ∧
    ∃ span, v.span = some span ∧
      span.start = Text.pointBehind (before.flatMap Segment.text) ∧
      (IsUnbroken source → source.flatMap Segment.text = v.name.toList ∧
        span.stop = Text.pointBehind ((before ++ source).flatMap Segment.text))

theorem exists_source {ss : List Segment} {a name b : List Char}
    (whole : ss.flatMap Segment.blanked = a ++ name ++ b) (solid : IsSolid name)
    (filled : name ≠ []) :
    ∃ before source after, ss = before ++ source ++ after ∧
      before.flatMap Segment.blanked = a ∧ source.flatMap Segment.blanked = name ∧
        ∃ c rest, source = .code c :: rest := by
  obtain ⟨c, cs, rfl⟩ := List.exists_cons_of_ne_nil filled
  rw [List.append_assoc, List.cons_append] at whole
  obtain ⟨before, behind, rfl, front, back⟩ := exists_code whole (solid.first c rfl)
  obtain rfl | ⟨inner, d, rfl⟩ := cs.eq_nil_or_concat'
  · exact ⟨before, [.code c], behind, by simp, front, rfl, c, [], rfl⟩
  · have last : Text.isBlank d = false := by
      refine solid.last d ?_
      rw [← List.cons_append, List.getLast?_concat]
      rfl
    rw [List.append_assoc, List.singleton_append] at back
    obtain ⟨middle, after, rfl, inside, -⟩ := exists_code back last
    refine ⟨before, .code c :: (middle ++ [.code d]), after, by simp, front, ?_, c, _, rfl⟩
    rw [List.flatMap_cons, List.flatMap_append, inside]
    rfl

theorem exists_isSourceOf {text : String} {v : VarToken}
    (stands : StandsIn (blankComments text.toList) v) (filled : v.name ≠ "") :
    ∃ before source after, IsSourceOf text v.name before source after ∧
      IsDeclaredBehind (blankComments text.toList) (before.flatMap Segment.blanked) v ∧
      v.span = some (.onLine (Place.behind (before.flatMap Segment.blanked)).line
        (Place.behind (before.flatMap Segment.blanked)).column
        (Text.byteCount v.name.toList)) := by
  obtain ⟨solid, a, b, whole, behind, span⟩ := stands
  rw [blankComments, blankFrom_eq_flatMap] at whole
  obtain ⟨before, source, after, parts, front, name, begins⟩ :=
    exists_source whole solid (by simpa using filled)
  have comments : ∀ cs, .comment cs ∈ before ++ source ++ after → IsComment cs := by
    intro cs member
    rw [← parts] at member
    exact isComment_of_mem_segments member
  refine ⟨before, source, after, ⟨parts, comments, name, begins⟩, ?_, ?_⟩
  · rwa [front]
  · rw [front, span]

theorem text_of_isUnbroken {source : List Segment} (unbroken : IsUnbroken source) :
    source.flatMap Segment.text = source.flatMap Segment.blanked := by
  refine List.flatMap_congr (fun s member => ?_)
  obtain ⟨c, rfl, -⟩ := unbroken s member
  rfl

theorem noFeed_of_isUnbroken {source : List Segment} (unbroken : IsUnbroken source) :
    '\n' ∉ source.flatMap Segment.text := by
  intro inside
  obtain ⟨s, member, feed⟩ := List.mem_flatMap.1 inside
  obtain ⟨c, rfl, other⟩ := unbroken s member
  exact other (List.mem_singleton.1 feed).symm

theorem point_foldl_of_noFeed {cs : List Char} (noFeed : '\n' ∉ cs) (p : Place) :
    (cs.foldl Place.next p).point = ⟨p.line, p.column + Text.byteLength cs⟩ := by
  induction cs generalizing p with
  | nil => rfl
  | cons c cs ih =>
    rw [List.mem_cons, not_or] at noFeed
    have next : p.next c = ⟨p.offset + 1, p.line, p.column + c.utf8Size⟩ :=
      if_neg (Ne.symm noFeed.1)
    rw [List.foldl_cons, ih noFeed.2, next, Text.byteLength, Nat.add_assoc]

end Analysis.Less

namespace Analyzer

open Analysis.Less
open Syntax (Place)

theorem less_analyze_turned {d : Document} {c : Config} {t : TokenTree}
    (ok : Analyzer.less.analyze d c = .ok t) :
    ∃ read turn, Analysis.Less.tree d.text = .ok read ∧
      (∀ front, front <+: d.text.toList →
        turn (Place.behind front).point = Text.pointBehind front) ∧
      ∀ v ∈ t.styles, ∃ w ∈ read.styles, w.name = v.name ∧ w.value = v.value ∧
        v.span = w.span.map (Span.map turn) := by
  cases outcome : Analysis.Less.tree d.text with
  | error message =>
    have reading : Analyzer.less.read d (c.language d.language) =
        .error (.parseFailure d.file message) := by
      rw [read, outcome]
      rfl
    rw [analyze, reading] at ok
    cases ok
  | ok t' =>
    have reading : Analyzer.less.read d (c.language d.language) = .ok t' := by
      rw [read, outcome]
      rfl
    obtain rfl := Except.ok.inj ((analyze_of_read reading).symm.trans ok)
    split
    · next ascii =>
      refine ⟨t', id, rfl, fun front within => ?_, fun v member => ⟨v, member, rfl, rfl, ?_⟩⟩
      · refine Text.point_behind_of_ascii (fun c inside => ?_)
        exact of_decide_eq_true (List.all_eq_true.1 ascii c (within.subset inside))
      · have same : Span.map id = id := rfl
        rw [same, Option.map_id, id]
    · refine ⟨t', Text.charPoint (Text.splitChars (· == '\n') d.text.toList), rfl,
        fun front within => ?_, fun v member => ?_⟩
      · obtain ⟨rest, whole⟩ := within
        rw [← whole, Text.charPoint_behind]
      · rw [TokenTree.useCharColumns, TokenTree.styles_mapSpan] at member
        obtain ⟨w, among, rfl⟩ := List.mem_map.1 member
        exact ⟨w, among, rfl, rfl, rfl⟩

/-- Each variable and each declaration of a style sheet is placed at the first character of its
name, outside of all comments, and just around the name where nothing else is in it. -/
theorem less_names_stand_at_places {d : Document} {c : Config} {t : TokenTree}
    (ok : Analyzer.less.analyze d c = .ok t) :
    ∀ v ∈ t.styles, v.name ≠ "" → IsPlacedIn d.text v := by
  obtain ⟨read, turn, outcome, turned, listed⟩ := less_analyze_turned ok
  intro v member filled
  obtain ⟨w, among, same, valued, place⟩ := listed v member
  obtain ⟨before, source, after, origin, behind, span⟩ :=
    exists_isSourceOf (standsIn_of_tree outcome w among) (by rwa [same])
  rw [IsDeclaredBehind, same, valued] at behind
  rw [same] at origin span
  have written : (before ++ source ++ after).flatMap Segment.text = d.text.toList := by
    rw [← origin.parts, flatMap_text_segments]
  have turned_text (front : List Segment) (leads : front <+: before ++ source ++ after) :
      turn (Place.behind (front.flatMap Segment.blanked)).point =
        Text.pointBehind (front.flatMap Segment.text) := by
    obtain ⟨rest, whole⟩ := leads
    rw [point_behind_blanked, turned]
    rw [← written, ← whole, List.flatMap_append]
    exact List.prefix_append _ _
  have start := turned_text before ⟨source ++ after, (List.append_assoc ..).symm⟩
  have stop := turned_text (before ++ source) (List.prefix_append _ _)
  refine ⟨before, source, after, origin, behind, _, by rw [place, span]; rfl, start, ?_⟩
  intro unbroken
  have own : source.flatMap Segment.text = v.name.toList := by
    rw [text_of_isUnbroken unbroken, origin.name]
  have noFeed : '\n' ∉ v.name.toList := by
    rw [← own]
    exact noFeed_of_isUnbroken unbroken
  rw [List.flatMap_append, origin.name, Place.behind_append, point_foldl_of_noFeed noFeed,
    ← Text.byteCount_eq_byteLength] at stop
  exact ⟨own, stop⟩

/-- Comments in front of names and inside of one, with characters of two bytes before the names. -/
def theme : Document :=
  { language := "less", file := "theme.less"
    text := "/* ä\n */ @größe: 4px; // Höhe:\n" ++
      ".a \x7b /*ß*/ größe/**/ : @größe;\n.b/* */.c(ä) \x7d" }

theorem less_names_stand_at_places_theme :
    ∃ t, Analyzer.less.analyze theme {} = .ok t ∧
      t.styles.map (fun v => (v.name, v.span)) =
        [("@größe", some (.onLine 1 4 6)), ("größe", some (.onLine 2 11 5)),
          (".b     .c", some (.onLine 3 0 9))] ∧
      ∀ v ∈ t.styles, v.name ≠ "" → IsPlacedIn theme.text v := by
  have shown : (Analyzer.less.analyze theme {}).toOption.map (fun t =>
      t.styles.map (fun v => (v.name, v.span))) =
        some [("@größe", some (.onLine 1 4 6)), ("größe", some (.onLine 2 11 5)),
          (".b     .c", some (.onLine 3 0 9))] := by
    decide +kernel
  cases ok : Analyzer.less.analyze theme {} with
  | error failure =>
    rw [ok] at shown
    cases shown
  | ok t =>
    rw [ok] at shown
    exact ⟨t, rfl, Option.some.inj shown, less_names_stand_at_places ok⟩

end Analyzer

end CodeOutline
