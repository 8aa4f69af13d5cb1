import CodeOutline.Proofs.Php.Imports
import CodeOutline.Proofs.Php.Writing

/-!
Reading what was written. A new PHP file carries the constants of its source entity as they are
shown, and a value that is shown shortened is no PHP.
-/

set_option autoImplicit false

namespace CodeOutline.Analysis.Php

/-- Whatever is written from an entity of the document can be read again. -/
def IsRereadable (doc : Document) (c : Config) : Prop :=
  ∀ t, Analyzer.php.analyze doc c = .ok t → ∀ kind, ∀ e ∈ t.entitiesOf kind,
    ∀ (mode : Scaffold.Mode) (target : String) (options : Scaffold.Options),
    Name.IsTarget separator target → options.space = none → options.sourceSpace = t.space →
    ∃ t', Analyzer.php.analyze { doc with
      text := Scaffold.render (Scaffold.Language.php.generate target e kind mode options) } c = .ok t'

def arrayDocument : Document where
  language := "php"
  file := "A.php"
  text := "<?php class A \x7b const X = [1, 2, 3]; \x7d"

def arrayLines : List String :=
  ["<?php", "", "class B", "\x7b", "    const X = [1, 2, ..];", "\x7d"]

/-- An array of three items cannot be read in the new file. -/
theorem not_isRereadable : ¬ IsRereadable arrayDocument {} := by
  intro rereadable
  have fits : (Analyzer.php.analyze arrayDocument {}).toOption.isSome = true := by decide +kernel
  cases analyzed : Analyzer.php.analyze arrayDocument {} with
  | error failure => simp [analyzed, Except.toOption] at fits
  | ok t =>
    have written : (Analyzer.php.analyze arrayDocument {}).toOption.map (fun t =>
        (t.space, t.classes.map (fun e =>
          Scaffold.Language.php.lines "B" e .class .implementation {}))) =
        some (none, [arrayLines]) := by decide +kernel
    rw [analyzed] at written
    obtain ⟨space, classes⟩ := Prod.mk.inj (Option.some.inj written)
    obtain ⟨e, only, lines⟩ := List.map_eq_singleton_iff.1 classes
    have target : Name.IsTarget separator "B" :=
      ⟨"B", ⟨'B', [], by decide, .inl (by decide), by simp⟩, .inl rfl⟩
    obtain ⟨t', read⟩ := rereadable t analyzed .class e (by simp [TokenTree.entitiesOf, only])
      .implementation "B" {} target rfl space.symm
    rw [Scaffold.Language.render_generate, lines] at read
    have broken : (Analyzer.php.analyze { arrayDocument with
        text := String.join (arrayLines.map (· ++ "\n")) } {}).toOption.isNone = true := by
      decide +kernel
    rw [read] at broken
    cases broken

/-! What can be read again -/

open Scaffold (publicOnly implemented? imported? sourceImport?)
open Scaffold.Php (IsPlainConstant IsPlainMethod)
open Grammar.Php (IsExpression IsParameterType)
open Syntax.Grammar (blanks)

variable {doc : Document} {c : Config} {t : TokenTree} {e : EntityToken}

theorem analyze_isOk (read : (Grammar.Php.read? doc.text.toList).isSome = true) :
    ∃ t, Analyzer.php.analyze doc c = .ok t := by
  have tree : (tree? doc.text (c.language doc.language)).isSome = true := by
    rwa [tree?, Option.isSome_map]
  exact Analyzer.exists_analyze rfl tree

theorem isWord_of_isIdentifier {s : String} (identifier : Name.IsIdentifier s) :
    Grammar.Php.IsWord s.toList := by
  obtain ⟨d, ds, whole, first, others⟩ := identifier
  rw [whole]
  constructor
  · rw [Grammar.Php.isNameStart, Bool.or_eq_true, Bool.or_eq_true, beq_iff_eq]
    exact .inl first
  · intro c member
    rcases others c member with fits | rfl
    · rw [Char.isAlphanum, Bool.or_eq_true] at fits
      rw [Grammar.Php.isNameChar, Grammar.Php.isNameStart]
      rcases fits with letter | digit
      · simp [letter]
      · simp [digit]
    · rfl

theorem isPath_of_firstSpace {text ns : String} (first : firstSpace? text = some ns) :
    Grammar.Php.IsPath ns.toList := by
  obtain ⟨m, there, named⟩ := List.mem_filterMap.1 (List.mem_of_mem_head? first)
  have proper := marksOf_proper text m there
  cases m with
  | space name =>
    obtain rfl := Option.some.inj named
    exact proper
  | entity d => cases named

theorem told_cases {own first : Option String} {bare : Prop} [Decidable bare]
    {p : String → Bool} {ns : String}
    (told : ((if bare then none else own).orElse (fun _ => first)).filter p = some ns) :
    own = some ns ∨ first = some ns := by
  obtain ⟨there, -⟩ := Option.filter_eq_some_iff.1 told
  by_cases hidden : bare
  · rw [if_pos hidden] at there
    exact .inr there
  · rw [if_neg hidden] at there
    cases own with
    | none => exact .inr there
    | some ns' => exact .inl there

theorem exists_declaration (analyzed : Analyzer.php.analyze doc c = .ok t) {kind : EntityKind}
    (listed : e ∈ t.entitiesOf kind) :
    ∃ d ∈ declarations doc.text kind, e.name = d.shown (c.language doc.language).position := by
  have named := List.mem_map_of_mem (f := EntityToken.name) listed
  rw [(analyze_lists analyzed).2 kind] at named
  obtain ⟨d, first, same⟩ := List.mem_map.1 named
  exact ⟨d, mem_of_mem_firsts first, same.symm⟩

/-- A new file can be read when the constants and methods that it carries can: they are the only
parts that may have lost their source. -/
theorem analyze_generate (analyzed : Analyzer.php.analyze doc c = .ok t) {kind : EntityKind}
    (listed : e ∈ t.entitiesOf kind) {mode : Scaffold.Mode}
    (constants : ∀ v ∈ publicOnly e.constants, IsPlainConstant v)
    (methods : ∀ m ∈ Scaffold.methods e mode, IsPlainMethod m)
    (trimmed : (c.language doc.language).position = .suffix →
      ∀ d ∈ declarations doc.text kind, d.IsTrim)
    {target : String} (asked : Name.IsTarget separator target) {options : Scaffold.Options}
    (space : options.space = none) (fallback : options.sourceSpace = t.space) :
    ∃ t', Analyzer.php.analyze { doc with
      text := Scaffold.render (Scaffold.Language.php.generate target e kind mode options) } c =
        .ok t' := by
  obtain ⟨d, declared, named⟩ := exists_declaration analyzed listed
  have proper := declaration_proper declared
  have trim := fun suffix => trimmed suffix d declared
  have one : separator.toList = ['\\'] := by decide
  obtain ⟨name, own, split, isName, isSpace⟩ :=
    Name.splitTarget_of_isTarget one (.head _) asked
  refine analyze_isOk (Scaffold.Php.read?_generate (space ▸ split) ?_)
  constructor
  case named => exact isWord_of_isIdentifier isName
  case spaced => exact fun ns same => (isWord_of_isIdentifier (isSpace ns same)).isPath
  case imported =>
    intro full shown
    rw [imported?, separator_eq, d.sourceImport?_shown proper trim named] at shown
    split at shown
    · obtain ⟨ns, told, rfl⟩ := Option.map_eq_some_iff.1 shown
      have path : Grammar.Php.IsPath ns.toList := by
        rcases told_cases told with own | first
        · exact proper.2 ns own
        · rw [fallback, (analyze_lists analyzed).1] at first
          exact isPath_of_firstSpace first
      simpa [one] using path.slash proper.1
    · cases shown
  case interface =>
    intro i shown
    unfold implemented? at shown
    split at shown
    · obtain rfl := Option.some.inj shown
      rw [Name.simple, named, separator_eq, d.split_shown proper trim]
      exact proper.1
    · cases shown
  case constants => exact constants
  case methods => exact methods

/-- A constant, and a method with a default of the same value. -/
def counterDocument : Document where
  language := "php"
  file := "Counter.php"
  text := "<?php namespace Shop; interface Counter \x7b const STEP = 1; " ++
    "public function add(int $n = 1): int; \x7d"

def isCounter (e : EntityToken) : Bool :=
  (publicOnly e.constants).all (fun v => v.name == "STEP" && v.value == some "1") &&
    (Scaffold.methods e .implementation).all (fun m => m.name == "add" && m.type == some "int" &&
      m.arguments.all (fun v => v.name == "n" && v.type == some "int" && v.value == some "1"))

theorem counter_isOk : ∃ t, Analyzer.php.analyze counterDocument {} = .ok t ∧ t.interfaces ≠ [] ∧
    ∀ e ∈ t.interfaces, isCounter e = true := by
  have fits : (Analyzer.php.analyze counterDocument {}).toOption.any (fun t =>
      !t.interfaces.isEmpty && t.interfaces.all isCounter) = true := by decide +kernel
  cases analyzed : Analyzer.php.analyze counterDocument {} with
  | error failure => simp [analyzed, Except.toOption] at fits
  | ok t =>
    rw [analyzed] at fits
    refine ⟨t, rfl, ?_⟩
    simpa [Except.toOption] using fits

theorem isExpression_one : IsExpression ['1'] := by
  refine Syntax.Grammar.isRead_of_judge ?_
  simp only [blanks, List.forall_mem_cons, List.not_mem_nil, false_imp_iff, implies_true, and_true]
  refine ⟨⟨?_, ?_, ?_⟩, ?_, ?_, ?_⟩
  all_goals exact fun rest => by cbv

theorem isParameterType_int : IsParameterType ['i', 'n', 't'] := by
  refine ⟨Syntax.Grammar.isRead_of_judge ?_, Grammar.Php.opens_cons (by decide) _, by decide⟩
  simp only [blanks, List.forall_mem_cons, List.not_mem_nil, false_imp_iff, implies_true, and_true]
  refine ⟨⟨?_, ?_, ?_, ?_, ?_, ?_⟩, ?_, ?_, ?_, ?_, ?_, ?_⟩
  all_goals exact fun rest => by cbv

theorem counter_plain {e : EntityToken} (fits : isCounter e = true) :
    (∀ v ∈ publicOnly e.constants, IsPlainConstant v) ∧
      ∀ m ∈ Scaffold.methods e .implementation, IsPlainMethod m := by
  have one : "1".toList = ['1'] := by decide
  have int : "int".toList = ['i', 'n', 't'] := by decide
  have word : ∀ s ∈ ["STEP", "add", "n"], Grammar.Php.IsWord s.toList := by
    simp [Grammar.Php.IsWord]
    decide
  simp only [isCounter, Bool.and_eq_true, List.all_eq_true, beq_iff_eq] at fits
  obtain ⟨constants, methods⟩ := fits
  constructor
  · intro v member
    obtain ⟨name, value⟩ := constants v member
    exact ⟨name ▸ word "STEP" (by simp), "1", value, one ▸ isExpression_one⟩
  · intro m member
    obtain ⟨⟨name, type⟩, arguments⟩ := methods m member
    refine ⟨name ▸ word "add" (by simp), fun v inside => ?_, fun t shown => ?_⟩
    · obtain ⟨⟨bare, typed⟩, default⟩ := arguments v inside
      refine ⟨⟨[], .head _, ['n'], ?_, by rw [bare]; rfl, by simp⟩, ?_, ?_⟩
      · exact word "n" (by simp)
      · intro t shown
        obtain rfl := Option.some.inj (typed ▸ (Option.filter_eq_some_iff.1 shown).1)
        exact int ▸ isParameterType_int
      · intro d shown
        obtain rfl := Option.some.inj (default ▸ (Option.filter_eq_some_iff.1 shown).1)
        exact one ▸ isExpression_one
    · obtain rfl := Option.some.inj (type ▸ (Option.filter_eq_some_iff.1 shown).1)
      exact int ▸ isParameterType_int.read

end CodeOutline.Analysis.Php
