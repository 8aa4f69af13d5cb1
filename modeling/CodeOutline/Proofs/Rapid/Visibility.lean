import CodeOutline.Proofs.Analysis.Distinct
import CodeOutline.Proofs.Rapid.Groups
import CodeOutline.Proofs.Rapid.Lines
import CodeOutline.Proofs.Text.Points

/-!
Which routines of a robot program are private. The keyword of locality is looked for on the whole
line: a routine is private if its line begins with the keyword, and also if the letters of the
keyword are in its name, in its type or in its arguments.
-/

set_option autoImplicit false

namespace CodeOutline.Analysis.Rapid

/-- The routines of an outline: those of its modules, and the traps. -/
def routinesOf (t : TokenTree) : List MethodToken := t.classes.flatMap (·.methods) ++ t.functions

/-- What is written on the line of a routine in front of the comment. -/
def codeAt? (text : String) (m : MethodToken) : Option String :=
  m.span.bind (fun s => ((Text.lines text)[s.start.line]?).map codeOf)

/-- A routine is private just when its line begins with the keyword. -/
def KeepsVisibility (text : String) (t : TokenTree) : Prop :=
  ∀ m ∈ routinesOf t, ∀ code ∈ codeAt? text m,
    (m.visibility = .priv ↔ Text.startsWith code "LOCAL" = true)

instance (text : String) (t : TokenTree) : Decidable (KeepsVisibility text t) := by
  delta KeepsVisibility
  infer_instance

/-- A routine whose name has the letters of the keyword. -/
def capitalName : Document :=
  { language := "rapid", file := "a.mod", text := "MODULE M\nPROC initLOCAL()\nENDPROC\nENDMODULE" }

theorem not_keepsVisibility : ∃ t ∈ (Analyzer.rapid.analyze capitalName {}).toOption,
    ¬ KeepsVisibility capitalName.text t := by
  decide +kernel

/-! ## The keyword in a line -/

/-- The texts of a routine that its program chooses: a type, a name, and what is between the
parentheses. -/
def Declaration.texts : Declaration → List String
  | .routine type name written => type.toList ++ [name, written]
  | .trap type name => type.toList ++ [name]
  | .record _ | .module _ => []

private def letters : List Char := "LOCAL".toList

section Letters

variable {cs rest body : List Char}

private theorem letters_solid : ∀ c ∈ letters, Text.isBlank c = false := by
  have solid : letters.any Text.isBlank = false := by decide
  simpa using solid

private theorem letters_infix_cons {c : Char} (other : c ≠ 'L') (cs : List Char) :
    letters <:+: c :: cs ↔ letters <:+: cs := by
  rw [List.infix_cons_iff]
  refine or_iff_right (fun leads => ?_)
  exact other (List.cons_prefix_cons.1 leads).1.symm

private theorem letters_infix_append {word : List Char} (absent : 'L' ∉ word)
    (cs : List Char) : letters <:+: word ++ cs ↔ letters <:+: cs := by
  induction word with
  | nil => exact Iff.rfl
  | cons c word ih =>
    have first : c ≠ 'L' := (List.ne_of_not_mem_cons absent).symm
    rw [List.cons_append, letters_infix_cons first, ih (List.not_mem_of_not_mem_cons absent)]

private theorem letters_infix_trim (cs : List Char) :
    letters <:+: Text.trimChars cs ↔ letters <:+: cs :=
  Text.infix_trimChars_iff (by decide) letters_solid cs

private theorem letters_infix_dropBlank (cs : List Char) :
    letters <:+: dropBlank cs ↔ letters <:+: cs := by
  unfold dropBlank
  split
  · next c rest =>
    split
    · next blank =>
      refine (letters_infix_cons ?_ rest).symm
      rintro rfl
      exact absurd blank (by decide)
    · exact Iff.rfl
  · exact Iff.rfl

private theorem letters_infix_typeAndName (body : List Char) :
    letters <:+: body ↔
      ∃ word ∈ (typeAndName body).1.toList ++ [(typeAndName body).2], letters <:+: word.toList := by
  have whole : letters <:+: body ↔
      ∃ word ∈ (none : Option String).toList ++ [String.ofList (Text.trimChars body)],
        letters <:+: word.toList := by
    simp [letters_infix_trim]
  unfold typeAndName
  dsimp only
  split
  · next c d rest filled behind =>
    split
    · next blank =>
      have parts : body = body.takeWhile isWordChar ++ c :: d :: rest := by
        rw [← behind, List.prefix_iff_eq_append.1 (List.takeWhile_prefix _)]
      have absent : c ∉ letters := by
        intro member
        rw [letters_solid c member] at blank
        cases blank
      have apart : letters <:+: body ↔
          letters <:+: body.takeWhile isWordChar ∨ letters <:+: d :: rest := by
        conv_lhs => rw [parts]
        exact Text.infix_append_cons_iff absent _ _
      rw [apart]
      simp [letters_infix_trim]
    · exact whole
  · exact whole

private theorem letters_infix_afterRoutineWord? (found : afterRoutineWord? cs = some rest) :
    letters <+: cs ∨ (letters <:+: cs ↔ letters <:+: rest) := by
  have keyword {cs rest : List Char} (found : (Text.dropStart? "PROC".toList cs).or
      (Text.dropStart? "FUNC".toList cs) = some rest) : letters <:+: cs ↔ letters <:+: rest := by
    rcases Option.or_eq_some_iff.1 found with drop | ⟨-, drop⟩ <;>
      rw [← Syntax.Scan.append_of_dropStart? drop] <;>
      exact letters_infix_append (by decide) rest
  simp only [afterRoutineWord?, Option.orElse_eq_or] at found
  rcases Option.or_eq_some_iff.1 found with marked | ⟨-, unmarked⟩
  · obtain ⟨behind, drop, -⟩ := Option.bind_eq_some_iff.1 marked
    exact .inl ⟨behind, Syntax.Scan.append_of_dropStart? drop⟩
  · rcases Option.or_eq_some_iff.1 unmarked with blank | ⟨-, plain⟩
    · exact .inr ((letters_infix_dropBlank cs).symm.trans (keyword blank))
    · exact .inr (keyword plain)

end Letters

private theorem letters_infix_routine? {d : Declaration} {cs : List Char}
    (found : routine? cs = some d) :
    letters <:+: cs ↔ letters <+: cs ∨ ∃ word ∈ d.texts, letters <:+: word.toList := by
  obtain ⟨rest, word, found⟩ := Option.bind_eq_some_iff.1 found
  obtain ⟨⟨body, written⟩, call, found⟩ := Option.bind_eq_some_iff.1 found
  obtain rfl := Option.some.inj found
  obtain ⟨⟨before, behind⟩, cut, ends⟩ := Option.bind_eq_some_iff.1 call
  obtain ⟨inside, closed, same⟩ := Option.bind_eq_some_iff.1 ends
  obtain ⟨rfl, rfl⟩ := Prod.mk.inj (Option.some.inj same)
  have parts : dropBlank rest = before ++ '(' :: (inside ++ ')' :: []) := by
    rw [← Text.append_of_cutFirst? cut, Text.append_of_dropEnd? closed, List.append_assoc,
      List.singleton_append]
  have texts : letters <:+: rest ↔ ∃ word ∈ (typeAndName before).1.toList ++
      [(typeAndName before).2, String.ofList inside], letters <:+: word.toList := by
    have nothing : ¬letters <:+: [] := by decide
    have split : (typeAndName before).1.toList ++ [(typeAndName before).2, String.ofList inside] =
        (typeAndName before).1.toList ++ [(typeAndName before).2] ++ [String.ofList inside] := by
      simp
    rw [← letters_infix_dropBlank, parts, Text.infix_append_cons_iff (by decide),
      Text.infix_append_cons_iff (by decide), letters_infix_typeAndName, or_iff_left nothing, split]
    simp only [List.mem_append (t := [String.ofList inside]), or_and_right, exists_or,
      List.mem_singleton, exists_eq_left, String.toList_ofList]
  rcases letters_infix_afterRoutineWord? word with marked | unmarked
  · exact iff_of_true marked.isInfix (.inl marked)
  · have all := unmarked.trans texts
    exact all.trans (or_iff_right_of_imp (fun leads => all.1 leads.isInfix)).symm

private theorem letters_infix_trap? {d : Declaration} {cs : List Char}
    (found : trap? cs = some d) :
    letters <:+: cs ↔ letters <+: cs ∨ ∃ word ∈ d.texts, letters <:+: word.toList := by
  obtain ⟨rest, word, found⟩ := Option.bind_eq_some_iff.1 found
  dsimp only at found
  split at found
  · cases found
  · obtain rfl := Option.some.inj found
    have all : letters <:+: cs ↔ ∃ word ∈ (typeAndName (dropBlank rest)).1.toList ++
        [(typeAndName (dropBlank rest)).2], letters <:+: word.toList := by
      rw [← Syntax.Scan.append_of_dropStart? word, letters_infix_append (by decide),
        ← letters_infix_dropBlank, letters_infix_typeAndName]
    exact all.trans (or_iff_right_of_imp (fun leads => all.1 leads.isInfix)).symm

/-- On the line of a routine the letters of the keyword stand at the beginning, or in one of the
texts that the program chooses. -/
theorem contains_local_iff {code : String} {d : Declaration} (found : declaration? code = some d)
    (filled : d.texts ≠ []) :
    Text.contains code "LOCAL" = true ↔
      Text.startsWith code "LOCAL" = true ∨
        ∃ word ∈ d.texts, Text.contains word "LOCAL" = true := by
  simp only [Text.contains_iff, Text.startsWith_iff]
  simp only [declaration?, Option.orElse_eq_or] at found
  rcases Option.or_eq_some_iff.1 found with routine | ⟨-, found⟩
  · exact letters_infix_routine? routine
  rcases Option.or_eq_some_iff.1 found with trap | ⟨-, found⟩
  · exact letters_infix_trap? trap
  -- Records and modules have no texts.
  rcases Option.or_eq_some_iff.1 found with record | ⟨-, module⟩
  · obtain ⟨rest, -, found⟩ := Option.bind_eq_some_iff.1 record
    dsimp only at found
    split at found
    · obtain rfl := Option.some.inj found
      exact absurd rfl filled
    · cases found
  · obtain ⟨rest, -, found⟩ := Option.bind_eq_some_iff.1 module
    split at found
    · split at found
      · obtain rfl := Option.some.inj found
        exact absurd rfl filled
      · cases found
    · cases found

/-! ## Routines and their lines -/

/-- The routine of an outline is the one that is declared, place and visibility apart. -/
def Declaration.Declares (d : Declaration) (m : MethodToken) : Prop :=
  d.part? = some (.inr (.routine m.bare)) ∨ d.trap? = some m.bare

structure IsFromLine (line : Line) (d : Declaration) (m : MethodToken) : Prop where
  found : declaration? (codeOf line.1) = some d
  texts : d.texts ≠ []
  declares : d.Declares m
  place : ∃ s, m.span = some s ∧ s.start.line = line.2
  visibility : m.visibility = visibilityOf line

theorem line_spanOf (line : Line) (name : String) : (spanOf line name).start.line = line.2 := rfl

theorem isFromLine_of_memberOf? {line : Line} {m : MethodToken}
    (declares : memberOf? line = some (.routine m)) : ∃ d, IsFromLine line d m := by
  unfold memberOf? at declares
  split at declares
  · cases declares
  · next type name written found =>
    split at declares
    · cases declares
    · next filled =>
      obtain rfl := Member.routine.inj (Option.some.inj declares)
      have declared : (Declaration.routine type name written).Declares
          { methodOf line type name with arguments := arguments written } := by
        refine .inl ?_
        simp [Declaration.part?, filled, MethodToken.bare, methodOf, bare_arguments]
      exact ⟨_, found, by simp [Declaration.texts], declared, ⟨_, rfl, line_spanOf line name⟩,
        by simp only [methodOf]⟩
  · cases declares

theorem isFromLine_of_trapOf? {line : Line} {m : MethodToken}
    (declares : trapOf? line = some m) : ∃ d, IsFromLine line d m := by
  unfold trapOf? at declares
  split at declares
  · next type name found =>
    split at declares
    · cases declares
    · next filled =>
      obtain rfl := Option.some.inj declares
      have declared : (Declaration.trap type name).Declares
          { methodOf line type name with isStatic := true } := by
        refine .inr ?_
        simp [Declaration.trap?, filled, MethodToken.bare, methodOf]
      exact ⟨_, found, by simp [Declaration.texts], declared, ⟨_, rfl, line_spanOf line name⟩,
        by simp only [methodOf]⟩
  · cases declares

theorem exists_line_of_routine {text : String} {m : MethodToken}
    (listed : m ∈ routinesOf (tree text)) : ∃ line ∈ linesOf text, ∃ d, IsFromLine line d m := by
  rcases List.mem_append.1 listed with method | trap
  · obtain ⟨e, among, inside⟩ := List.mem_flatMap.1 method
    rw [classes_tree] at among
    obtain ⟨module, -, rfl⟩ := List.mem_map.1 among
    obtain ⟨member, joins, routine⟩ := List.mem_filterMap.1 (mem_of_mem_firsts inside)
    obtain ⟨⟨before, line⟩, here, brings⟩ := List.mem_flatMap.1 joins
    obtain ⟨front, back, parts, -⟩ := mem_withBefore.1 here
    have declares : memberOf? line = some member := by
      dsimp only at brings
      split at brings
      · exact Option.mem_toList.1 brings
      · cases brings
    have same : member = .routine m := by
      cases member with
      | record p => cases routine
      | routine r => rw [Option.some.inj routine]
    rw [same] at declares
    exact ⟨line, by rw [parts]; simp, isFromLine_of_memberOf? declares⟩
  · rw [functions_tree] at trap
    obtain ⟨line, among, declares⟩ := List.mem_filterMap.1 (mem_of_mem_firsts trap)
    exact ⟨line, among, isFromLine_of_trapOf? declares⟩

/-! ## Outlines with other places -/

section Places

variable {text : String} {line : Line} {d : Declaration} {m : MethodToken}

theorem routinesOf_mapSpan (f : Span → Span) (t : TokenTree) :
    routinesOf (t.mapSpan f) = (routinesOf t).map (·.mapSpan f) := by
  have methods (es : List EntityToken) : (mapEntitySpans f es).flatMap (·.methods) =
      (es.flatMap (·.methods)).map (·.mapSpan f) := by
    induction es with
    | nil => rfl
    | cons e es ih =>
      have own : (e.mapSpan f).methods = e.methods.map (·.mapSpan f) := by
        obtain ⟨⟩ := e
        rw [EntityToken.mapSpan]
      rw [mapEntitySpans, List.flatMap_cons, List.flatMap_cons, List.map_append, ih, own]
  rw [routinesOf, routinesOf, List.map_append, ← methods]
  rfl

theorem IsFromLine.mapSpan (own : IsFromLine line d m) {f : Point → Point}
    (keeps : ∀ p, (f p).line = p.line) : IsFromLine line d (m.mapSpan (Span.map f)) where
  found := own.found
  texts := own.texts
  declares := by
    rw [Declaration.Declares, MethodToken.bare_mapSpan]
    exact own.declares
  place := by
    obtain ⟨s, span, start⟩ := own.place
    refine ⟨s.map f, ?_, (keeps s.start).trans start⟩
    rw [MethodToken.mapSpan, span, Option.map_some]
  visibility := own.visibility

theorem IsFromLine.codeAt? (own : IsFromLine line d m) (among : line ∈ linesOf text) :
    codeAt? text m = some (codeOf line.1) := by
  obtain ⟨s, span, start⟩ := own.place
  have there : (Text.lines text)[line.2]? = some line.1 := List.mem_zipIdx_iff_getElem?.1 among
  rw [Rapid.codeAt?, span, Option.bind_some, start, there, Option.map_some]

theorem IsFromLine.private_iff (own : IsFromLine line d m) :
    m.visibility = .priv ↔ Text.startsWith (codeOf line.1) "LOCAL" = true ∨
      ∃ word ∈ d.texts, Text.contains word "LOCAL" = true := by
  rw [← contains_local_iff own.found own.texts, own.visibility, visibilityOf]
  split
  · next inside => exact iff_of_true rfl inside
  · next absent => exact iff_of_false (by decide) absent

end Places

/-- Every routine of an outline is declared on the line of its place. It is private exactly if that
line begins with the keyword, or if the letters of the keyword are in its name, its type or its
arguments. So routines are private just when their lines begin with the keyword exactly if the
letters are in no texts of other routines. -/
theorem routine_private_iff (d : Document) (c : Config) :
    ∃ t, Analyzer.rapid.analyze d c = .ok t ∧
      (∀ m ∈ routinesOf t, ∃ code decl, codeAt? d.text m = some code ∧
        declaration? code = some decl ∧ decl.Declares m ∧
        (m.visibility = .priv ↔ Text.startsWith code "LOCAL" = true ∨
          ∃ word ∈ decl.texts, Text.contains word "LOCAL" = true)) ∧
      (KeepsVisibility d.text t ↔ ∀ m ∈ routinesOf t, ∀ code ∈ codeAt? d.text m,
        ∀ decl ∈ declaration? code, (∃ word ∈ decl.texts, Text.contains word "LOCAL" = true) →
          Text.startsWith code "LOCAL" = true) := by
  have reading : Analyzer.rapid.read d (c.language d.language) = .ok (tree d.text) := rfl
  have turns : (tree d.text).useCharColumns d.text =
      (tree d.text).mapSpan (Span.map (Text.turned d.text)) := rfl
  refine ⟨_, Analyzer.analyze_of_read reading, ?_⟩
  rw [turns]
  generalize shown : (if Text.isAscii d.text then tree d.text
    else (tree d.text).mapSpan (Span.map (Text.turned d.text))) = t
  have each : ∀ m ∈ routinesOf t, ∃ line ∈ linesOf d.text, ∃ decl, IsFromLine line decl m := by
    intro m listed
    subst shown
    split at listed
    · exact exists_line_of_routine listed
    · rw [routinesOf_mapSpan] at listed
      obtain ⟨m, before, rfl⟩ := List.mem_map.1 listed
      obtain ⟨line, among, decl, own⟩ := exists_line_of_routine before
      exact ⟨line, among, decl, own.mapSpan (Text.turned_line d.text)⟩
  refine ⟨fun m listed => ?_, ?_⟩
  · obtain ⟨line, among, decl, own⟩ := each m listed
    exact ⟨codeOf line.1, decl, own.codeAt? among, own.found, own.declares, own.private_iff⟩
  · refine forall₂_congr (fun m listed => ?_)
    obtain ⟨line, among, decl, own⟩ := each m listed
    rw [own.codeAt? among]
    simp only [Option.mem_some_iff, forall_eq', own.found, own.private_iff]
    exact or_iff_left_iff_imp

end CodeOutline.Analysis.Rapid
