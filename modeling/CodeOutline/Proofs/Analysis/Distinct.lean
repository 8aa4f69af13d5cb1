import CodeOutline.Analyzer
import CodeOutline.Proofs.Token.Distinct

/-!
Whatever a document holds, no name stands twice in a collection of its tree. Each analysis
walks over its document and adds to the tree, and every addition keeps names apart.
-/

set_option autoImplicit false

namespace CodeOutline

open TokenTree (HasDistinctNames)

variable {t : TokenTree}

namespace Analysis

/-! One lemma for each walk -/

namespace Php

theorem addClause_distinct (distinct : t.HasDistinctNames) (fore : Option String)
    (clause : Syntax.Node) : (addClause fore t clause).HasDistinctNames := by
  unfold addClause
  dsimp only
  split
  · exact distinct
  · exact distinct.addImport _

theorem addUse_distinct (distinct : t.HasDistinctNames) (n : Syntax.Node) :
    (addUse t n).HasDistinctNames := by
  refine distinct.foldl (fun distinct child => ?_) _
  split
  · exact addClause_distinct distinct _ _
  · exact distinct.foldl (fun distinct clause => addClause_distinct distinct _ clause) _
  · exact distinct

theorem addDeclare_distinct (distinct : t.HasDistinctNames) (n : Syntax.Node) :
    (addDeclare t n).HasDistinctNames := by
  unfold addDeclare
  split
  · split
    · split <;> exact distinct.setStrict _
    · exact distinct
  · exact distinct

theorem addAssignment_distinct (distinct : t.HasDistinctNames) (n : Syntax.Node) :
    (addAssignment t n).HasDistinctNames := by
  unfold addAssignment
  split
  · exact distinct
  · split
    · split
      · exact distinct.addVariable _
      · exact distinct
    · exact distinct

variable {w : Walk} (position : NamespacePosition) (distinct : w.tree.HasDistinctNames)

include distinct

theorem addEntity_distinct (kind : EntityKind) (n : Syntax.Node) :
    (addEntity position w kind n).tree.HasDistinctNames := by
  unfold addEntity
  split
  · exact distinct
  · exact distinct.addEntity _ _

theorem enterSpace_distinct (n : Syntax.Node) : (enterSpace w n).tree.HasDistinctNames := by
  unfold enterSpace
  dsimp only
  split
  · split
    · exact distinct.setSpace _
    · exact distinct
  · exact distinct

omit distinct in
mutual

theorem visit_distinct : (w : Walk) → w.tree.HasDistinctNames → (n : Syntax.Node) →
    (visit position w n).tree.HasDistinctNames
  | w, distinct, ⟨kind, isNamed, isExtra, field, start, stop, tail, children⟩ => by
    unfold visit
    dsimp only
    split
    · have inner := enterSpace_distinct distinct
        ⟨"namespace_definition", isNamed, isExtra, field, start, stop, tail, children⟩
      split
      · exact visitAll_distinct _ inner children
      · exact inner
    · exact addUse_distinct distinct _
    · exact addDeclare_distinct distinct _
    · exact addEntity_distinct position distinct _ _
    · exact addEntity_distinct position distinct _ _
    · exact addEntity_distinct position distinct _ _
    · exact distinct.addFunction _
    · exact addAssignment_distinct distinct _
    · exact visitAll_distinct w distinct children
    · exact distinct

theorem visitAll_distinct : (w : Walk) → w.tree.HasDistinctNames → (ns : List Syntax.Node) →
    (visitAll position w ns).tree.HasDistinctNames
  | _, distinct, [] => by rwa [visitAll]
  | w, distinct, n :: rest => by
    rw [visitAll]
    exact visitAll_distinct _ (visit_distinct w distinct n) rest

end

end Php

namespace Java

theorem addEntity_distinct (distinct : t.HasDistinctNames) (position : NamespacePosition)
    (space : Option String) (n : Syntax.Node) :
    (addEntity position space t n).HasDistinctNames := by
  unfold addEntity
  dsimp only
  split <;> (try split) <;> first | exact distinct.addEntity _ _ | exact distinct

theorem tree?_distinct {text : String} {settings : LanguageSettings}
    (read : tree? text settings = some t) : t.HasDistinctNames := by
  obtain ⟨root, -, rfl⟩ := Option.map_eq_some_iff.1 read
  refine HasDistinctNames.foldl (HasDistinctNames.foldl ?_ HasDistinctNames.addImport _)
    (fun distinct n => addEntity_distinct distinct _ _ n) _
  split
  · exact HasDistinctNames.empty.setSpace _
  · exact .empty

end Java

namespace Script

theorem addEntity_distinct (distinct : t.HasDistinctNames) (s : Setting) (kind : EntityKind)
    (addMember : Bool → EntityToken → Syntax.Node → EntityToken) (n : Syntax.Node) :
    (addEntity s kind addMember t n).HasDistinctNames := by
  unfold addEntity
  split
  · exact distinct
  · exact distinct.addEntity _ _

theorem addImport_distinct (distinct : t.HasDistinctNames) (n : Syntax.Node) :
    (addImport t n).HasDistinctNames := by
  unfold addImport
  split
  · exact distinct
  · exact distinct.addImport _

theorem addVariables_distinct (distinct : t.HasDistinctNames) (isTyped : Bool)
    (n : Syntax.Node) : (addVariables isTyped t n).HasDistinctNames := by
  refine distinct.foldl (fun distinct declarator => ?_) _
  split
  · split
    · exact distinct.addVariable _
    · exact distinct
  · exact distinct

theorem addFunction_distinct (distinct : t.HasDistinctNames) (isTyped : Bool)
    (n : Syntax.Node) : (addFunction isTyped t n).HasDistinctNames := by
  unfold addFunction
  split
  · exact distinct.addFunction _
  · exact distinct

theorem visit_distinct (s : Setting) (t : TokenTree) (n : Syntax.Node)
    (distinct : t.HasDistinctNames) : (visit s t n).HasDistinctNames := by
  unfold visit
  split
  case h_1 => exact addImport_distinct distinct n
  case h_2 =>
    split
    · next declared found =>
      have := Syntax.Node.sizeOf_of_child? found
      exact visit_distinct _ t declared distinct
    · refine distinct.foldl (fun {t} distinct c => ?_) _
      have := Syntax.Node.sizeOf_of_mem_named c.2
      exact visit_distinct _ t c.1 distinct
  case h_3 | h_4 =>
    split
    · exact distinct
    · have entered (space : String) :
          (if t.space.isNone then t.setSpace space else t).HasDistinctNames := by
        split
        · exact distinct.setSpace space
        · exact distinct
      dsimp only
      split
      · exact entered _
      · next body found =>
        refine (entered _).foldl (fun {t} distinct c => ?_) _
        have := Nat.lt_trans (Syntax.Node.sizeOf_of_mem_named c.2)
          (Syntax.Node.sizeOf_of_child? found)
        exact visit_distinct _ t c.1 distinct
  case h_5 =>
    refine distinct.foldl (fun {t} distinct c => ?_) _
    have := Syntax.Node.sizeOf_of_mem_named (List.mem_filter.1 c.2).1
    exact visit_distinct _ t c.1 distinct
  case h_6 =>
    refine distinct.foldl (fun {t} distinct c => ?_) _
    have := Syntax.Node.sizeOf_of_mem_named c.2
    exact visit_distinct _ t c.1 distinct
  case h_7 | h_8 | h_9 | h_10 => exact addEntity_distinct distinct _ _ _ _
  case h_11 => exact addFunction_distinct distinct _ _
  case h_12 | h_13 => exact addVariables_distinct distinct _ _
  case h_14 => exact distinct
termination_by sizeOf n

end Script

namespace CFamily

theorem addSymbol_distinct (distinct : t.HasDistinctNames) (lines : List String)
    (position : NamespacePosition) (s : Symbol) :
    (addSymbol lines position t s).HasDistinctNames := by
  have held (f : EntityToken → EntityToken) (named : ∀ e, (f e).name = e.name) :
      (inContainer t s f).HasDistinctNames := by
    unfold inContainer
    split
    · exact distinct.updateOpen _ _ named
    · exact distinct
  unfold addSymbol
  dsimp only
  split
  · exact distinct.setSpace _
  · exact distinct.addImport _
  · exact distinct.addImport _
  · exact distinct.addEntity _ _
  · exact distinct.addEntity _ _
  · exact distinct.addEntity _ _
  · exact held _ fun _ => rfl
  · exact held _ fun _ => rfl
  · exact held _ fun _ => rfl
  · exact held _ fun _ => rfl
  · exact distinct.addVariable _
  · exact distinct.addFunction _

end CFamily

namespace Python

theorem addStatement_distinct (distinct : t.HasDistinctNames) (n : Syntax.Node) :
    (addStatement t n).HasDistinctNames := by
  unfold addStatement
  split
  split
  · split
    · exact distinct.addEntity _ _
    · exact distinct
  · split
    · exact distinct.addFunction _
    · exact distinct
  · exact distinct.foldl HasDistinctNames.addVariable _
  · exact distinct

end Python

namespace Rapid

theorem addLine_distinct (distinct : t.HasDistinctNames) (line : String × Nat) :
    (addLine t line).HasDistinctNames := by
  unfold addLine
  dsimp only
  split
  · exact distinct
  · split
    · exact distinct
    · exact distinct.addEntity _ _
  · exact distinct.updateLastClass fun _ => rfl
  · split
    · exact distinct
    · exact distinct.updateLastClass fun _ => rfl
  · split
    · exact distinct
    · exact distinct.addFunction _

end Rapid

namespace Rules

theorem addLine_distinct (distinct : t.HasDistinctNames) (text line : String) :
    (addLine text t line).HasDistinctNames := by
  unfold addLine
  split
  · exact distinct.addImport _
  · split
    · exact distinct.addRule _
    · exact distinct

end Rules

namespace Css

theorem addItem_distinct (distinct : t.HasDistinctNames) (n : Syntax.Node) :
    (addItem t n).HasDistinctNames := by
  unfold addItem
  split
  · split
    · exact distinct.addDeclarations _ _
    · exact distinct
  · split
    · exact distinct.foldl (fun distinct set => distinct.addMediaDeclarations _ _ _) _
    · exact distinct
  · exact distinct

end Css

namespace Less

theorem step_distinct {level level' : Level} {s : Statement} {t' : TokenTree}
    (distinct : t.HasDistinctNames) (stepped : step level t s = .ok (level', t')) :
    t'.HasDistinctNames := by
  unfold step at stepped
  dsimp only at stepped
  split at stepped <;> (try split at stepped) <;> cases stepped
  all_goals first
    | exact distinct
    | exact distinct.addVariable _
    | exact distinct.addDeclarations _ _

theorem walk_distinct {level : Level} {statements : List Statement} {t' : TokenTree}
    (distinct : t.HasDistinctNames) (walked : walk level t statements = .ok t') :
    t'.HasDistinctNames := by
  induction statements generalizing level t with
  | nil =>
    cases walked
    exact distinct
  | cons s statements ih =>
    rw [walk] at walked
    cases stepped : step level t s with
    | error place => simp [stepped, bind, Except.bind] at walked
    | ok next =>
      simp only [stepped, bind, Except.bind] at walked
      exact ih (step_distinct distinct stepped) walked

end Less

end Analysis

namespace Analyzer

theorem eq_some_of_orSyntaxError {d : Document} {read : Option TokenTree}
    (ok : orSyntaxError d read = .ok t) : read = some t := by
  cases read with
  | none => cases ok
  | some t' =>
    cases ok
    rfl

theorem read_distinct {a : Analyzer} {d : Document} {settings : LanguageSettings}
    (ok : a.read d settings = .ok t) : t.HasDistinctNames := by
  cases a with
  | php =>
    obtain ⟨root, -, rfl⟩ := Option.map_eq_some_iff.1 (eq_some_of_orSyntaxError ok)
    exact Analysis.Php.visitAll_distinct _ _ .empty _
  | java => exact Analysis.Java.tree?_distinct (eq_some_of_orSyntaxError ok)
  | script =>
    obtain ⟨root, -, rfl⟩ := Option.map_eq_some_iff.1 (eq_some_of_orSyntaxError ok)
    have start : HasDistinctNames
        (if Analysis.Script.isStrict root then TokenTree.empty.setStrict true else .empty) := by
      split
      · exact HasDistinctNames.empty.setStrict _
      · exact .empty
    exact start.foldl (fun {t} distinct n => Analysis.Script.visit_distinct _ t n distinct) _
  | cfamily =>
    cases listed : symbols d with
    | error failure => simp [read, listed, Except.map] at ok
    | ok symbols =>
      simp only [read, listed, Except.map, Except.ok.injEq] at ok
      exact ok ▸ HasDistinctNames.empty.foldl
        (fun distinct s => Analysis.CFamily.addSymbol_distinct distinct _ _ s) _
  | python =>
    obtain ⟨root, -, rfl⟩ := Option.map_eq_some_iff.1 (eq_some_of_orSyntaxError ok)
    exact (HasDistinctNames.empty.foldl HasDistinctNames.addImport _).foldl
      Analysis.Python.addStatement_distinct _
  | rules =>
    obtain rfl := Except.ok.inj ok
    exact (HasDistinctNames.empty.foldl
      (fun distinct line => Analysis.Rules.addLine_distinct distinct _ line) _).foldl
        (fun distinct name => distinct.addVariable _) _
  | items =>
    obtain rfl := Except.ok.inj ok
    exact HasDistinctNames.empty.foldl (fun distinct item => distinct.addItem _) _
  | css =>
    obtain ⟨root, -, rfl⟩ := Option.map_eq_some_iff.1 (eq_some_of_orSyntaxError ok)
    exact HasDistinctNames.empty.foldl Analysis.Css.addItem_distinct _
  | less =>
    unfold read at ok
    cases walked : Analysis.Less.walk .top .empty
      (Analysis.Less.statements (Analysis.Less.blankComments d.text.toList)) with
    | error place => simp [Analysis.Less.tree, walked, Except.mapError] at ok
    | ok t' =>
      simp only [Analysis.Less.tree, walked, Except.mapError, Except.ok.injEq] at ok
      exact ok ▸ Analysis.Less.walk_distinct .empty walked
  | rapid =>
    obtain rfl := Except.ok.inj ok
    exact HasDistinctNames.empty.foldl Analysis.Rapid.addLine_distinct _
  | json =>
    obtain ⟨root, -, rfl⟩ := Option.map_eq_some_iff.1 (eq_some_of_orSyntaxError ok)
    split
    · exact HasDistinctNames.empty.setData _
    · exact .empty

theorem analyze_of_read {a : Analyzer} {d : Document} {c : Config}
    (reading : a.read d (c.language d.language) = .ok t) :
    a.analyze d c = .ok (if Text.isAscii d.text then t else t.useCharColumns d.text) := by
  rw [analyze, reading]
  rfl

theorem exists_analyze {a : Analyzer} {d : Document} {c : Config} {tree : Option TokenTree}
    (reads : a.read d (c.language d.language) = orSyntaxError d tree) (found : tree.isSome = true) :
    ∃ t, a.analyze d c = .ok t := by
  obtain ⟨t, rfl⟩ := Option.isSome_iff_exists.1 found
  exact ⟨_, analyze_of_read reads⟩

theorem read_of_analyze {a : Analyzer} {d : Document} {c : Config} (ok : a.analyze d c = .ok t) :
    ∃ t', a.read d (c.language d.language) = .ok t' ∧ (t = t' ∨ ∃ f, t = t'.mapSpan f) := by
  unfold analyze at ok
  cases reading : a.read d (c.language d.language) with
  | error failure => simp [reading, bind, Except.bind] at ok
  | ok t' =>
    simp only [reading, bind, Except.bind, pure, Except.pure, Except.ok.injEq] at ok
    refine ⟨t', rfl, ?_⟩
    split at ok
    · exact .inl ok.symm
    · exact .inr ⟨_, ok.symm⟩

theorem analyze_distinct {a : Analyzer} {d : Document} {c : Config}
    (ok : a.analyze d c = .ok t) : t.HasDistinctNames := by
  obtain ⟨t', reading, rfl | ⟨f, rfl⟩⟩ := read_of_analyze ok
  · exact read_distinct reading
  · exact (read_distinct reading).mapSpan f

end Analyzer

end CodeOutline
