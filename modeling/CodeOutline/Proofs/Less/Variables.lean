import CodeOutline.Proofs.Less.Places
import CodeOutline.Proofs.Less.Structure
import CodeOutline.Proofs.Name.Splitting

/-!
The variables that a style sheet shows. Any statement at top level that starts with an at sign and
has a colon counts as the declaration of a variable, named by all that stands before its first
colon. So the variables are those declared as `@name: value` just if no directive has a colon.
-/

set_option autoImplicit false

namespace CodeOutline.Analysis.Less

/-! ## Variables and directives as they are written -/

/-- A character of a variable's name. -/
def isVariableChar (c : Char) : Bool :=
  !Text.isBlank c && !(['"', '\'', '(', ')', ':'].contains c)

/-- A name of a variable, without its at sign. -/
structure IsVariableName (name : List Char) : Prop where
  ne_nil : name ≠ []
  plain : ∀ c ∈ name, isVariableChar c = true

/-- A statement of the form `@name: value`, with blanks before the colon or none. -/
def DeclaresVariable (statement name value : List Char) : Prop :=
  IsVariableName name ∧
    ∃ gap, (∀ c ∈ gap, Text.isBlank c = true) ∧ statement = '@' :: (name ++ gap ++ ':' :: value)

/-- A statement that starts with an at sign and declares no variable, such as an import. -/
structure IsDirective (statement : List Char) : Prop where
  atSign : statement.head? = some '@'
  undeclared : ∀ name value, ¬ DeclaresVariable statement name value

/-- Every variable in the outline is declared by a statement at top level, under its name. -/
def HasOnlyVariables (items : List Item) (t : TokenTree) : Prop :=
  ∀ v ∈ t.vars, ∃ p, Item.statement p ∈ items ∧ ∃ name value,
    DeclaresVariable (Text.trimChars p.text) name value ∧ v.name.toList = '@' :: name

/-! The text before the first colon -/

section

variable {front front' value value' name : List Char}

theorem trimRight_append_behind (cs : List Char) :
    ∃ gap, (∀ c ∈ gap, Text.isBlank c = true) ∧ cs = Text.trimRight cs ++ gap := by
  refine ⟨(cs.reverse.takeWhile Text.isBlank).reverse, fun c member => ?_, ?_⟩
  · exact List.mem_takeWhile_imp (List.mem_reverse.1 member)
  · rw [Text.trimRight, ← List.reverse_append, List.takeWhile_append_dropWhile,
      List.reverse_reverse]

theorem firstColon_unique (absent : ':' ∉ front) (absent' : ':' ∉ front')
    (same : front ++ ':' :: value = front' ++ ':' :: value') : front = front' ∧ value = value' := by
  have cut := Text.cutFirst?_append absent value
  rw [same, Text.cutFirst?_append absent'] at cut
  exact Prod.mk.inj (Option.some.inj cut.symm)

theorem exists_front {statement : List Char} (colon : ':' ∈ statement) :
    ∃ front value, statement = front ++ ':' :: value ∧ ':' ∉ front := by
  obtain ⟨front, value, parts, absent⟩ := List.eq_append_cons_of_mem colon
  exact ⟨front, value, parts, absent⟩

theorem IsVariableName.no_colon (named : IsVariableName name) : ':' ∉ name :=
  fun member => absurd (named.plain ':' member) (by decide)

theorem declaresVariable_iff (absent : ':' ∉ front) :
    DeclaresVariable (front ++ ':' :: value) name value' ↔
      value = value' ∧ IsVariableName name ∧ Text.trimRight front = '@' :: name := by
  constructor
  · rintro ⟨named, gap, blank, whole⟩
    have noColon : ':' ∉ '@' :: (name ++ gap) := by
      have inGap : ':' ∉ gap := fun member => absurd (blank ':' member) (by decide)
      simp [named.no_colon, inGap]
    obtain ⟨rfl, rfl⟩ := firstColon_unique absent noColon whole
    have solid : ∀ c ∈ ('@' :: name).getLast?, Text.isBlank c = false := by
      intro c last
      have inside := List.mem_of_getLast? last
      rcases List.mem_cons.1 inside with rfl | member
      · decide
      · have fits := named.plain c member
        rw [isVariableChar, Bool.and_eq_true, Bool.not_eq_true'] at fits
        exact fits.1
    have kept : Text.trimRight ('@' :: name) = '@' :: name := by
      have first : ∀ c ∈ ('@' :: name).head?, Text.isBlank c = false := by
        rintro c ⟨⟩
        decide
      have left : Text.trimLeft ('@' :: name) = '@' :: name :=
        List.dropWhile_cons_of_neg (by decide)
      have whole := Text.trimChars_of_ends first solid
      rwa [Text.trimChars, left] at whole
    refine ⟨rfl, named, ?_⟩
    rw [← List.cons_append, Text.trimRight_append_blanks _ blank, kept]
  · rintro ⟨rfl, named, shown⟩
    obtain ⟨gap, blank, whole⟩ := trimRight_append_behind front
    refine ⟨named, gap, blank, ?_⟩
    rw [whole, shown]
    simp

end

theorem DeclaresVariable.exists_front {statement name value : List Char}
    (declares : DeclaresVariable statement name value) : ∃ front value,
      statement = front ++ ':' :: value ∧ ':' ∉ front ∧ front.head? = some '@' := by
  obtain ⟨named, gap, blank, rfl⟩ := declares
  have inGap : ':' ∉ gap := fun member => absurd (blank ':' member) (by decide)
  refine ⟨'@' :: (name ++ gap), value, by simp, ?_, rfl⟩
  simp [named.no_colon, inGap]

/-! ## What a statement shows -/

section

variable {p : Piece} {front value : List Char}

theorem nameAndValue?_atSign (cs : List Char) : nameAndValue? ('@' :: cs) =
    (Text.cutFirst? [':'] ('@' :: cs)).map (fun (name, value) =>
      (Text.trimChars name, Text.collapse (String.ofList value))) := rfl

theorem head?_of_colon (parts : Text.trimChars p.text = front ++ ':' :: value)
    (atSign : (Text.trimChars p.text).head? = some '@') : front.head? = some '@' := by
  rw [parts] at atSign
  cases front with
  | nil =>
    have other : ':' = '@' := Option.some.inj atSign
    exact absurd other (by decide)
  | cons c front => exact atSign

theorem exists_var?_of_colon (parts : Text.trimChars p.text = front ++ ':' :: value)
    (absent : ':' ∉ front) (atSign : front.head? = some '@') :
    ∃ v, (Item.statement p).var? = some v ∧ v.name.toList = Text.trimRight front ∧
      v.value = some (Text.collapse (String.ofList value)) := by
  obtain ⟨rest, rfl⟩ := List.head?_eq_some_iff.1 atSign
  have left : Text.trimLeft ('@' :: rest) = '@' :: rest :=
    List.dropWhile_cons_of_neg (by decide)
  have read : nameAndValue? ('@' :: rest ++ ':' :: value) =
      some (Text.trimRight ('@' :: rest), Text.collapse (String.ofList value)) := by
    have cut := Text.cutFirst?_append absent value
    rw [List.cons_append] at cut ⊢
    rw [nameAndValue?_atSign, cut]
    simp only [Option.map_some, Text.trimChars, left]
  have declared : declaration? (p.ended .semicolon) ≠ none := by
    simp only [declaration?, Piece.ended, parts, read]
    exact Option.some_ne_none _
  obtain ⟨w, declares⟩ := Option.ne_none_iff_exists'.1 declared
  refine ⟨{ w with isStatic := true }, ?_, ?_⟩
  · have first : (Text.trimChars p.text).head? = some '@' := by
      rw [parts]
      rfl
    rw [Item.var?, if_pos first, declares]
    rfl
  · simp only [declaration?, Piece.ended, parts, read, Option.map_some] at declares
    obtain rfl := Option.some.inj declares
    exact ⟨String.toList_ofList, rfl⟩

theorem exists_colon_of_var? {v : VarToken} (shows : (Item.statement p).var? = some v) :
    ∃ front value, Text.trimChars p.text = front ++ ':' :: value ∧ ':' ∉ front ∧
      front.head? = some '@' := by
  rw [Item.var?] at shows
  split at shows
  · next atSign =>
    have colon : ':' ∈ Text.trimChars p.text := by
      by_contra absent
      obtain ⟨rest, begins⟩ := List.head?_eq_some_iff.1 atSign
      have read : nameAndValue? (Text.trimChars p.text) = none := by
        rw [begins] at absent ⊢
        rw [nameAndValue?_atSign, Text.cutFirst?_of_not_mem absent, Option.map_none]
      simp only [declaration?, Piece.ended, read] at shows
      cases shows
    obtain ⟨front, value, parts, absent⟩ := exists_front colon
    exact ⟨front, value, parts, absent, head?_of_colon parts atSign⟩
  · cases shows

end

/-! ## Variables in the outline -/

section

variable {items : List Item} {t : TokenTree} {p : Piece} {front value : List Char}

theorem Shows.exists_statement (shows : Shows items t) {v : VarToken} (listed : v ∈ t.vars) :
    ∃ p, Item.statement p ∈ items ∧ ∃ front value,
      Text.trimChars p.text = front ++ ':' :: value ∧ ':' ∉ front ∧ front.head? = some '@' ∧
        v.name.toList = Text.trimRight front ∧
        v.value = some (Text.collapse (String.ofList value)) := by
  rw [shows.vars] at listed
  obtain ⟨item, member, declares⟩ := List.mem_filterMap.1 (mem_of_mem_firsts listed)
  cases item with
  | block => cases declares
  | statement p =>
    obtain ⟨front, value, parts, absent, atSign⟩ := exists_colon_of_var? declares
    obtain ⟨w, declares', name, shown⟩ := exists_var?_of_colon parts absent atSign
    obtain rfl := Option.some.inj (declares.symm.trans declares')
    exact ⟨p, member, front, value, parts, absent, atSign, name, shown⟩

theorem Shows.exists_var (shows : Shows items t) (member : Item.statement p ∈ items)
    (parts : Text.trimChars p.text = front ++ ':' :: value) (absent : ':' ∉ front)
    (atSign : front.head? = some '@') : ∃ v ∈ t.vars, v.name.toList = Text.trimRight front := by
  obtain ⟨v, declares, name, -⟩ := exists_var?_of_colon parts absent atSign
  have among : v.name ∈ t.vars.map (·.name) := by
    rw [shows.vars, mem_map_firsts]
    exact List.mem_map_of_mem (List.mem_filterMap.2 ⟨_, member, declares⟩)
  obtain ⟨w, listed, same⟩ := List.mem_map.1 among
  exact ⟨w, listed, by rw [same, name]⟩

theorem Shows.exists_declared (shows : Shows items t) (member : Item.statement p ∈ items)
    {name : List Char} (declares : DeclaresVariable (Text.trimChars p.text) name value) :
    ∃ v ∈ t.vars, v.name.toList = '@' :: name := by
  obtain ⟨front, value', parts, absent, atSign⟩ := declares.exists_front
  have shown := declares
  rw [parts, declaresVariable_iff absent] at shown
  obtain ⟨v, listed, named⟩ := shows.exists_var member parts absent atSign
  exact ⟨v, listed, named.trans shown.2.2⟩

theorem Shows.exists_unnamed (shows : Shows items t) (member : Item.statement p ∈ items)
    (directive : IsDirective (Text.trimChars p.text)) (colon : ':' ∈ Text.trimChars p.text) :
    ∃ v ∈ t.vars, ∀ name, IsVariableName name → v.name.toList ≠ '@' :: name := by
  obtain ⟨front, value, parts, absent⟩ := exists_front colon
  have atSign := head?_of_colon parts directive.atSign
  obtain ⟨v, listed, shown⟩ := shows.exists_var member parts absent atSign
  refine ⟨v, listed, fun name named same => directive.undeclared name value ?_⟩
  rw [parts, declaresVariable_iff absent]
  exact ⟨rfl, named, shown.symm.trans same⟩

theorem Shows.hasOnlyVariables_iff (shows : Shows items t) :
    HasOnlyVariables items t ↔ ∀ p, Item.statement p ∈ items →
      IsDirective (Text.trimChars p.text) → ':' ∉ Text.trimChars p.text := by
  constructor
  · intro only p member directive colon
    obtain ⟨v, listed, unnamed⟩ := shows.exists_unnamed member directive colon
    obtain ⟨_, -, name, _, declares, shown⟩ := only v listed
    exact unnamed name declares.1 shown
  · intro plain v listed
    obtain ⟨p, member, front, value, parts, absent, atSign, named, -⟩ :=
      shows.exists_statement listed
    refine ⟨p, member, ?_⟩
    have colon : ':' ∈ Text.trimChars p.text := by
      rw [parts]
      simp
    have first : (Text.trimChars p.text).head? = some '@' := by
      rw [parts, List.head?_append, atSign]
      rfl
    by_contra none
    refine plain p member ⟨first, fun name value' declares => none ?_⟩ colon
    have shown := declares
    rw [parts, declaresVariable_iff absent] at shown
    exact ⟨name, value', declares, named.trans shown.2.2⟩

end

/-! An import with an address -/

/-- An import of an address with a colon, and a variable. -/
def importing : Document :=
  { language := "less", file := "a.less", text := "@import \"http://x\";\n@a : 1;" }

def importingItems : List Item :=
  [.statement ⟨"@import \"http://x\"".toList, .origin⟩, .statement ⟨"\n@a : 1".toList, ⟨19, 0, 19⟩⟩]

set_option maxRecDepth 4000 in
theorem isForest_importing : IsForest (blankComments importing.text.toList) importingItems := by
  refine ⟨⟨[], ⟨27, 1, 7⟩⟩, ?_⟩
  rw [← statements_eq_cut]
  rfl

theorem isDirective_of_import : IsDirective (Text.trimChars "@import \"http://x\"".toList) := by
  have parts : Text.trimChars "@import \"http://x\"".toList =
      "@import \"http".toList ++ ':' :: "//x\"".toList := rfl
  refine ⟨rfl, fun name value declares => ?_⟩
  rw [parts, declaresVariable_iff (by decide)] at declares
  obtain ⟨-, named, shown⟩ := declares
  obtain rfl : "import \"http".toList = name := (List.cons.inj shown).2
  exact absurd (named.plain ' ' (by decide)) (by decide)

theorem not_hasOnlyVariables : ∃ t items, Analyzer.less.read importing {} = .ok t ∧
    IsForest (blankComments importing.text.toList) items ∧ ¬ HasOnlyVariables items t := by
  obtain ⟨t, read, shows⟩ := exists_tree_of_isForest isForest_importing
  have ok : Analyzer.less.read importing {} = .ok t := by
    rw [Analyzer.read, read]
    rfl
  refine ⟨t, importingItems, ok, isForest_importing, fun only => ?_⟩
  exact shows.hasOnlyVariables_iff.1 only _ List.mem_cons_self isDirective_of_import (by decide)

end CodeOutline.Analysis.Less

namespace CodeOutline.Analyzer

open Analysis.Less

/-- Every variable in the outline of a style sheet is named by what stands before the first colon of
a statement at top level that starts with an at sign. The variables declared as `@name: value` are
among them; they are all of them exactly when no directive at top level has a colon, for such a
directive shows a variable under what is no variable's name. -/
theorem less_variables_declared {d : Document} {settings : LanguageSettings} {t : TokenTree}
    (ok : Analyzer.less.read d settings = .ok t) :
    ∃ items, IsForest (blankComments d.text.toList) items ∧
      (∀ v ∈ t.vars, ∃ p, Item.statement p ∈ items ∧ ∃ front value,
        Text.trimChars p.text = front ++ ':' :: value ∧ ':' ∉ front ∧ front.head? = some '@' ∧
          v.name.toList = Text.trimRight front ∧
          v.value = some (Text.collapse (String.ofList value))) ∧
      (∀ p name value, Item.statement p ∈ items →
        DeclaresVariable (Text.trimChars p.text) name value →
          ∃ v ∈ t.vars, v.name.toList = '@' :: name) ∧
      (∀ p, Item.statement p ∈ items → IsDirective (Text.trimChars p.text) →
        ':' ∈ Text.trimChars p.text →
          ∃ v ∈ t.vars, ∀ name, IsVariableName name → v.name.toList ≠ '@' :: name) ∧
      (HasOnlyVariables items t ↔ ∀ p, Item.statement p ∈ items →
        IsDirective (Text.trimChars p.text) → ':' ∉ Text.trimChars p.text) := by
  obtain ⟨items, forest, shows⟩ := ((less_read_shows_forest d settings).1 t).1 ok
  exact ⟨items, forest, fun v listed => shows.exists_statement listed,
    fun p name value member declares => shows.exists_declared member declares,
    fun p member directive colon => shows.exists_unnamed member directive colon,
    shows.hasOnlyVariables_iff⟩

theorem less_variables_declared_importing : ∃ t, Analyzer.less.read importing {} = .ok t ∧
    (∃ v ∈ t.vars, v.name.toList = "@a".toList) ∧
    ∃ v ∈ t.vars, ∀ name, IsVariableName name → v.name.toList ≠ '@' :: name := by
  obtain ⟨t, read, -⟩ := exists_tree_of_isForest isForest_importing
  have ok : Analyzer.less.read importing {} = .ok t := by
    rw [Analyzer.read, read]
    rfl
  obtain ⟨items, forest, -, declared, unnamed, -⟩ := less_variables_declared ok
  obtain rfl := forest.unique isForest_importing
  have declares : DeclaresVariable (Text.trimChars "\n@a : 1".toList) ['a'] " 1".toList :=
    ⟨⟨by decide, List.forall_mem_singleton.2 (by decide)⟩, [' '],
      List.forall_mem_singleton.2 (by decide), rfl⟩
  have second := List.mem_cons_of_mem (Item.statement ⟨"@import \"http://x\"".toList, .origin⟩)
    (List.mem_singleton.2 (rfl : Item.statement ⟨"\n@a : 1".toList, ⟨19, 0, 19⟩⟩ = _))
  exact ⟨t, ok, declared _ _ _ second declares,
    unnamed _ List.mem_cons_self isDirective_of_import (by decide)⟩

end CodeOutline.Analyzer
