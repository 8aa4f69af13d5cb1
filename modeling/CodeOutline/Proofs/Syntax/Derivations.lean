import CodeOutline.Syntax.Rule

/-!
What a rule has done when it has read something, as a derivation: a step for each kind of rule, with
derivations of the rules inside it, and no bound of the depth. What every reading keeps is proved by
induction on them, and for the text in front of a token by induction on its blanks and comments.
-/

set_option autoImplicit false

namespace CodeOutline.Syntax

/-- The node of a piece that is passed over, if it is a comment. -/
def Cursor.passed (c : Cursor) (n : Nat) (kind : Option String) : List Node :=
  kind.toList.map (fun kind =>
    { kind, isExtra := true, start := c.place, stop := (c.skip n).place, tail := c.rest })

end CodeOutline.Syntax

namespace CodeOutline.Syntax.Grammar

variable {σ : Type}

/-! ## In front of a token -/

section Lead

variable {g : Grammar σ} {motive : Cursor → List Node → Cursor → Prop}
  (stays : ∀ c, motive c [] c)
  (piece : ∀ {c stop n kind xs}, g.between c.depth c.rest = some (n, kind) →
    motive (c.skip n) xs stop → motive c (c.passed n kind ++ xs) stop)

include stays piece

theorem lead_rec (c : Cursor) : motive c (g.lead c).1 (g.lead c).2 := by
  have pass (fuel : List Char) (c : Cursor) : motive c (g.pass fuel c).1 (g.pass fuel c).2 := by
    induction fuel generalizing c with
    | nil => exact stays c
    | cons _ fuel ih =>
      rw [Grammar.pass]
      split
      · exact stays c
      · exact stays c
      · next length kind _ found =>
        have whole := piece found (ih (c.skip length))
        cases kind <;> exact whole
  unfold lead
  split
  · exact stays c
  · exact pass _ c

end Lead

/-! ## Rules -/

/-- With the nodes on its left the rule has read the nodes and come from one cursor to the other.
What was tried and did not fit is left out. -/
inductive Derives (g : Grammar σ) :
    List Node → Rule σ → Cursor → List Node → Cursor → Prop
  | done {left c} : Derives g left .done c [] c
  | test {left c p} : Derives g left (.test p) c [] c
  | ahead {left a c} : Derives g left (.ahead a) c [] c
  | notAhead {left a c} : Derives g left (.notAhead a) c [] c
  | move {left c stop f} : f c (g.lead c).2 = some stop → Derives g left (.move f) c [] stop
  | call {left c xs stop name} : Derives g left (g.rule name) c xs stop →
      Derives g left (.call name) c xs stop
  | seq {left a b c xs middle ys stop} : Derives g [] a c xs middle →
      Derives g [] b middle ys stop → Derives g left (.seq a b) c (xs ++ ys) stop
  | altLeft {left a b c xs stop} : Derives g left a c xs stop → Derives g left (.alt a b) c xs stop
  | altRight {left a b c xs stop} : Derives g left b c xs stop → Derives g left (.alt a b) c xs stop
  | manyNone {left a c} : Derives g left (.many a) c [] c
  | manyOne {left a c xs stop} : Derives g [] a c xs stop → Derives g left (.many a) c xs stop
  | manyMore {left a c xs middle ys stop} : Derives g [] a c xs middle →
      Derives g [] (.many a) middle ys stop → Derives g left (.many a) c (xs ++ ys) stop
  | sign {left c s rest} : Text.dropStart? s.toList (g.lead c).2.rest = some rest →
      Derives g left (.sign s) c (take (g.lead c).1 (g.lead c).2 s false s.length).1
        (take (g.lead c).1 (g.lead c).2 s false s.length).2
  | word {left c s rest} : g.dropWord? s.toList (g.lead c).2.rest = some rest →
      Derives g left (.word s) c (take (g.lead c).1 (g.lead c).2 s false s.length).1
        (take (g.lead c).1 (g.lead c).2 s false s.length).2
  | longest {left c known wanted s} : longestSign? known (g.lead c).2.rest = some s → s ∈ wanted →
      Derives g left (.longest known wanted) c
        (take (g.lead c).1 (g.lead c).2 s false s.length).1
        (take (g.lead c).1 (g.lead c).2 s false s.length).2
  | leaf {left c kind scan n} : scan (g.lead c).2.rest = some n → Derives g left (.leaf kind scan) c
      (take (g.lead c).1 (g.lead c).2 kind true n).1 (take (g.lead c).1 (g.lead c).2 kind true n).2
  | near {left c kind scan n} : Derives g left (.near kind scan) c
      (take [] c kind true n).1 (take [] c kind true n).2
  | placed {left c kind scan n} : Derives g left (.placed kind scan) c
      (take [] c kind true n).1 (take [] c kind true n).2
  | node {left c kind a xs stop fuel} : g.run fuel [] a c = some (xs, stop) →
      Derives g [] a c xs stop → Derives g left (.node kind a) c (c.enclose stop kind xs) stop
  | field {left c role a xs stop} : Derives g left a c xs stop →
      Derives g left (.field role a) c (assignField role xs) stop
  | chain {left c base step xs middle ys stop} : Derives g [] base c xs middle →
      Derives g xs (.grow step) middle ys stop → Derives g left (.chain base step) c ys stop
  | growNone {left c step} : Derives g left (.grow step) c left c
  | growMore {left c step xs middle ys stop} : Derives g left step c xs middle →
      Derives g xs (.grow step) middle ys stop → Derives g left (.grow step) c ys stop
  | wrap {left c kind role a xs stop} : Derives g [] a c xs stop →
      Derives g left (.wrap kind role a) c (c.enclose stop kind (assignField role left ++ xs)) stop
  | inside {left c a xs stop} : Derives g [] a { c with depth := c.depth + 1 } xs stop →
      Derives g left (.inside a) c xs { stop with depth := c.depth }

variable {g : Grammar σ} {fuel : Nat} {a : Rule σ} {c stop : Cursor} {left xs : List Node}

/-- Whatever the reader gives back is derived. The induction is on how deep the rules stand inside
each other. -/
theorem derives_of_run (run : g.run fuel left a c = some (xs, stop)) :
    g.Derives left a c xs stop := by
  induction fuel generalizing left a c xs stop with
  | zero => cases run
  | succ fuel ih =>
    cases a with
    | done =>
      cases run
      exact .done
    | never => cases run
    | call name => exact .call (ih run)
    | seq a b =>
      simp only [Grammar.run] at run
      split at run
      · cases run
      · next ys c₁ first =>
        split at run
        · cases run
        · next zs c₂ second =>
          cases run
          exact .seq (ih first) (ih second)
    | alt a b =>
      simp only [Grammar.run] at run
      split at run
      · next found first =>
        cases run
        exact .altLeft (ih first)
      · exact .altRight (ih run)
    | many a =>
      simp only [Grammar.run] at run
      split at run
      · cases run
        exact .manyNone
      · next ys c₁ first =>
        split at run
        · cases run
          exact .manyNone
        · split at run
          · cases run
            exact .manyOne (ih first)
          · next zs c₂ others =>
            cases run
            exact .manyMore (ih first) (ih others)
    | sign s =>
      simp only [Grammar.run] at run
      split at run
      · next rest fits =>
        cases run
        exact .sign fits
      · cases run
    | word s =>
      simp only [Grammar.run] at run
      split at run
      · next d ds fits =>
        split at run <;> cases run
        exact .word fits
      · next fits =>
        cases run
        exact .word fits
      · cases run
    | longest known wanted =>
      simp only [Grammar.run] at run
      split at run
      · next s found =>
        split at run
        · next among =>
          cases run
          exact .longest found (List.contains_iff_mem.1 among)
        · cases run
      · cases run
    | leaf kind scan =>
      simp only [Grammar.run] at run
      split at run
      · next n fits =>
        cases run
        exact .leaf fits
      · cases run
    | near kind scan =>
      simp only [Grammar.run] at run
      split at run <;> cases run
      exact .near
    | placed kind scan =>
      simp only [Grammar.run] at run
      split at run <;> cases run
      exact .placed
    | node kind a =>
      simp only [Grammar.run] at run
      split at run
      · next ys c₁ inner =>
        cases run
        exact .node inner (ih inner)
      · cases run
    | field role a =>
      simp only [Grammar.run] at run
      split at run
      · next ys c₁ inner =>
        cases run
        exact .field (ih inner)
      · cases run
    | chain base step =>
      simp only [Grammar.run] at run
      split at run
      · next ys c₁ first => exact .chain (ih first) (ih run)
      · cases run
    | grow step =>
      simp only [Grammar.run] at run
      split at run
      · next ys c₁ first => exact .growMore (ih first) (ih run)
      · cases run
        exact .growNone
    | wrap kind role a =>
      simp only [Grammar.run] at run
      split at run
      · next ys c₁ inner =>
        cases run
        exact .wrap (ih inner)
      · cases run
    | ahead a =>
      simp only [Grammar.run] at run
      split at run <;> cases run
      exact .ahead
    | notAhead a =>
      simp only [Grammar.run] at run
      split at run <;> cases run
      exact .notAhead
    | test p =>
      simp only [Grammar.run] at run
      split at run <;> cases run
      exact .test
    | move f =>
      simp only [Grammar.run] at run
      split at run
      · next c' moved =>
        cases run
        exact .move moved
      · cases run
    | inside a =>
      simp only [Grammar.run] at run
      split at run
      · next ys c₁ inner =>
        cases run
        exact .inside (ih inner)
      · cases run

end CodeOutline.Syntax.Grammar
