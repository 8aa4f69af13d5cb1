import CodeOutline.Analyzer
import CodeOutline.Proofs.CFamily.Declarations
import CodeOutline.Proofs.Symbols.Nesting
import CodeOutline.Proofs.Text.Pieces

/-!
The namespaces in the shown names of types, against the namespaces that stand around their
declarations. An outline keeps the namespace that was begun last: neither is it joined to the
ones around it, nor does it end with its block.
-/

set_option autoImplicit false

namespace CodeOutline.Analysis.CFamily

open Symbols (Placed placed? symbols_placed?)

/-- The namespace that declarations around a symbol make together. -/
def around (outer : List Symbol) : Option String :=
  nonempty? (separator.intercalate (outer.reverse.filterMap spaceOf?))

/-- The name of a type with the namespaces around its declaration. -/
def lexicalName (p : Placed) : String :=
  Name.qualify p.symbol.name (around p.outer) separator .full

/-- Every entity shows the namespaces around the declaration that it comes from. -/
def ShowsSpaces (ps : List Placed) (t : TokenTree) : Prop :=
  ∀ x ∈ t.entities, ∃ p ∈ ps, entityKind? p.symbol.kind = some x.1 ∧
    x.2.span = some p.symbol.span ∧ x.2.name = lexicalName p

instance (ps : List Placed) (t : TokenTree) : Decidable (ShowsSpaces ps t) := by
  delta ShowsSpaces
  infer_instance

/-- A type behind the block of a namespace. -/
def typeBehindBlock : Document :=
  { language := "cpp", file := "a.cpp", text := "namespace a { class A {}; }\nclass B {};" }

theorem not_showsSpaces : ∃ ps ∈ placed? typeBehindBlock.language typeBehindBlock.text,
    ∃ t ∈ (Analyzer.cfamily.read typeBehindBlock {}).toOption, ¬ ShowsSpaces ps t := by
  decide +kernel

theorem read_eq_tree {d : Document} {settings : LanguageSettings} {t : TokenTree}
    (read : Analyzer.cfamily.read d settings = .ok t) :
    ∃ ps, placed? d.language d.text = some ps ∧
      t = tree d.text (ps.map (·.symbol)) settings := by
  simp only [Analyzer.read, Analyzer.symbols] at read
  split at read
  · split at read
    · next symbols listed =>
      rw [← symbols_placed?] at listed
      obtain ⟨ps, placed, rfl⟩ := Option.map_eq_some_iff.1 listed
      exact ⟨ps, placed, (Except.ok.inj read).symm⟩
    · cases read
  · cases read

theorem exists_ok_of_isSome {ε α : Type} {result : Except ε α}
    (fits : result.toOption.isSome = true) : ∃ a, result = .ok a := by
  cases result with
  | error failure => cases fits
  | ok a => exact ⟨a, rfl⟩

/-! Names in full form -/

theorem ne_empty_of_begun {symbols : List Symbol} {ns : String} (opened : begun symbols = some ns) :
    ns ≠ "" := by
  obtain ⟨s, -, opens⟩ := List.mem_filterMap.1 (List.mem_of_getLast? opened)
  exact (spaceOf?_eq_some.1 opens).2.1

theorem ne_empty_of_around {outer : List Symbol} {ns : String} (joined : around outer = some ns) :
    ns ≠ "" :=
  (nonempty?_eq_some.1 joined).1

theorem qualify_full_inj {own : String} {space space' : Option String}
    (filled : ∀ ns, space = some ns → ns ≠ "") (filled' : ∀ ns, space' = some ns → ns ≠ "") :
    Name.qualify own space separator .full = Name.qualify own space' separator .full ↔
      space = space' := by
  have spell (space : Option String) (filled : ∀ ns, space = some ns → ns ≠ "") :
      Name.qualify own space separator .full = space.elim "" (· ++ separator) ++ own := by
    cases space with
    | none => simp [Name.qualify]
    | some ns => simp [Name.qualify, filled ns rfl]
  rw [spell space filled, spell space' filled', String.append_left_inj]
  cases space <;> cases space' <;> simp [String.append_left_inj, separator]

theorem around_eq_innermost {outer : List Symbol} {ns : String} {more : List String}
    (spaces : outer.filterMap spaceOf? = ns :: more) : around outer = some ns ↔ more = [] := by
  have opened : ns ∈ outer.filterMap spaceOf? := spaces ▸ List.mem_cons_self
  obtain ⟨s, -, opens⟩ := List.mem_filterMap.1 opened
  have filled : ns ≠ "" := (spaceOf?_eq_some.1 opens).2.1
  rw [around, List.filterMap_reverse, spaces, List.reverse_cons, nonempty?]
  cases more with
  | nil => simp [filled]
  | cons next more =>
    have several : ((next :: more).reverse.map String.toList) ≠ [] := by simp
    have chars := Text.intercalate_concat separator.toList several ns.toList
    have longer : separator.intercalate ((next :: more).reverse ++ [ns]) ≠ ns := by
      intro same
      have lengths := congrArg (fun s : String => s.toList.length) same
      rw [String.toList_intercalate, List.map_append, List.map_singleton, chars] at lengths
      have mark : separator.toList.length = 1 := by decide
      simp only [List.length_append] at lengths
      omega
    split <;> simp only [reduceCtorEq, Option.some.injEq, longer]

/-- The entities of a kind are the first declarations of each shown name, and a declaration shows
the namespace that was begun last before it. This is the namespace around it exactly when the two
are the same: for a type outside of all namespaces, when none comes before it; for a type whose
innermost namespace was begun last, when that one stands in no other. -/
theorem names_show_begun {d : Document} {settings : LanguageSettings} {t : TokenTree}
    (read : Analyzer.cfamily.read d settings = .ok t) (full : settings.position = .full) :
    ∃ ps, placed? d.language d.text = some ps ∧
      (∀ kind, (t.entitiesOf kind).map (fun e => (e.name, e.span)) =
        (firsts (·.name) (ofKind kind (declared .full (ps.map (·.symbol))))).map
          (fun own => (own.name, some own.symbol.span))) ∧
      ∀ before p after, ps = before ++ p :: after →
        let last := begun (before.map (·.symbol))
        let shown := Name.qualify p.symbol.name last separator .full
        (shown = lexicalName p ↔ last = around p.outer) ∧
          (around p.outer = none →
            (shown = lexicalName p ↔ ∀ q ∈ before, spaceOf? q.symbol = none)) ∧
          ∀ ns more, p.outer.filterMap spaceOf? = ns :: more → last = some ns →
            (shown = lexicalName p ↔ more = []) := by
  obtain ⟨ps, placed, rfl⟩ := read_eq_tree read
  refine ⟨ps, placed, fun kind => ?_, fun before p after _ => ?_⟩
  · rw [entitiesOf_tree, full, List.map_map]
    rfl
  · intro last shown
    have apart : shown = lexicalName p ↔ last = around p.outer :=
      qualify_full_inj (fun ns => ne_empty_of_begun) (fun ns => ne_empty_of_around)
    refine ⟨apart, fun outside => ?_, fun ns more spaces innermost => ?_⟩
    · have none : begun (before.map (·.symbol)) = none ↔
          ∀ q ∈ before, spaceOf? q.symbol = none := by
        rw [begun, List.getLast?_eq_none_iff, List.filterMap_eq_nil_iff, List.forall_mem_map]
      rw [apart, outside, none]
    · rw [apart, innermost, eq_comm, around_eq_innermost spaces]

theorem names_show_begun_typeBehindBlock : ∃ ps t,
    Analyzer.cfamily.read typeBehindBlock {} = .ok t ∧
      placed? typeBehindBlock.language typeBehindBlock.text = some ps ∧
      ∀ before p after, ps = before ++ p :: after → around p.outer = none →
        (Name.qualify p.symbol.name (begun (before.map (·.symbol))) separator .full =
          lexicalName p ↔ ∀ q ∈ before, spaceOf? q.symbol = none) := by
  have fits : (Analyzer.cfamily.read typeBehindBlock {}).toOption.isSome = true := by
    decide +kernel
  obtain ⟨t, read⟩ := exists_ok_of_isSome fits
  obtain ⟨ps, placed, -, shown⟩ := names_show_begun read rfl
  exact ⟨ps, t, read, placed, fun before p after parts => (shown before p after parts).2.1⟩

end CodeOutline.Analysis.CFamily
