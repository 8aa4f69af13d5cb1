import CodeOutline.Analyzer
import CodeOutline.Proofs.Less.Braces

/-!
A style sheet with variables is read just if its braces are balanced. What matters of the place
where the reading stands is the number of open blocks; a statement changes it by its ending.
-/

set_option autoImplicit false

namespace CodeOutline.Analysis.Less

/-! ## Balanced braces -/

/-- No beginning closes more than it opens, and the whole closes as many as it opens. -/
def Balanced (bs : List Brace) : Prop :=
  (∀ p, p <+: bs → p.count .closing ≤ p.count .opening) ∧
    bs.count .closing = bs.count .opening

def BalancedFrom (depth : Nat) (bs : List Brace) : Prop :=
  (∀ p, p <+: bs → p.count .closing ≤ depth + p.count .opening) ∧
    bs.count .closing = depth + bs.count .opening

theorem balancedFrom_zero (bs : List Brace) : BalancedFrom 0 bs ↔ Balanced bs := by
  simp only [BalancedFrom, Balanced, Nat.zero_add]

theorem balancedFrom_nil (depth : Nat) : BalancedFrom depth [] ↔ depth = 0 := by
  constructor
  · rintro ⟨-, total⟩
    exact total.symm
  · rintro rfl
    refine ⟨?_, rfl⟩
    intro p before
    rw [List.prefix_nil.1 before]
    exact Nat.le_refl _

theorem forall_prefix_cons {b : Brace} {bs : List Brace} {P : List Brace → Prop} :
    (∀ p, p <+: b :: bs → P p) ↔ P [] ∧ ∀ p, p <+: bs → P (b :: p) := by
  constructor
  · intro each
    refine ⟨each [] List.nil_prefix, ?_⟩
    intro p before
    exact each (b :: p) (List.cons_prefix_cons.2 ⟨rfl, before⟩)
  · rintro ⟨none, more⟩ p before
    rcases List.prefix_cons_iff.1 before with rfl | ⟨rest, rfl, shorter⟩
    · exact none
    · exact more rest shorter

theorem balancedFrom_opening (depth : Nat) (bs : List Brace) :
    BalancedFrom depth (.opening :: bs) ↔ BalancedFrom (depth + 1) bs := by
  have opened (p : List Brace) : depth + (p.count .opening + 1) = depth + 1 + p.count .opening := by
    omega
  simp [BalancedFrom, forall_prefix_cons, opened]

theorem balancedFrom_zero_closing (bs : List Brace) : ¬BalancedFrom 0 (.closing :: bs) := by
  rintro ⟨fits, -⟩
  have first := fits [.closing] (List.cons_prefix_cons.2 ⟨rfl, List.nil_prefix⟩)
  exact absurd first (by decide)

theorem balancedFrom_succ_closing (depth : Nat) (bs : List Brace) :
    BalancedFrom (depth + 1) (.closing :: bs) ↔ BalancedFrom depth bs := by
  have closed (p : List Brace) : depth + 1 + p.count .opening = depth + p.count .opening + 1 := by
    omega
  simp [BalancedFrom, forall_prefix_cons, closed]

/-! ## Open blocks -/

/-- The number of blocks that are open where the reading stands. -/
def Level.depth : Level → Nat
  | .top => 0
  | .body _ _ => 1
  | .passing none depth => depth + 1
  | .passing (some _) depth => depth + 2

def depthBehind? (depth : Nat) : Ending → Option Nat
  | .semicolon => some depth
  | .opening => some (depth + 1)
  | .closing => if depth = 0 then none else some (depth - 1)
  | .eof => if depth = 0 then some 0 else none

theorem step_depth (level : Level) (t : TokenTree) (s : Statement) :
    match depthBehind? level.depth s.ending with
    | some depth => ∃ next tree, step level t s = .ok (next, tree) ∧ next.depth = depth
    | none => step level t s = .error s.start := by
  obtain ⟨text, start, ending⟩ := s
  cases level with
  | top =>
    cases ending with
    | semicolon =>
      change ∃ next tree, step .top t ⟨text, start, .semicolon⟩ = .ok (next, tree) ∧ next.depth = 0
      simp only [step]
      split <;> exact ⟨_, _, rfl, rfl⟩
    | opening =>
      change ∃ next tree, step .top t ⟨text, start, .opening⟩ = .ok (next, tree) ∧ next.depth = 1
      simp only [step]
      split <;> exact ⟨_, _, rfl, rfl⟩
    | closing => rfl
    | eof => exact ⟨_, _, rfl, rfl⟩
  | body selector ds =>
    cases ending with
    | closing | opening | semicolon => exact ⟨_, _, rfl, rfl⟩
    | eof => rfl
  | passing rule depth =>
    cases ending with
    | opening | semicolon => rcases rule with _ | ⟨_, _⟩ <;> exact ⟨_, _, rfl, rfl⟩
    | closing => rcases rule with _ | ⟨_, _⟩ <;> cases depth <;> exact ⟨_, _, rfl, rfl⟩
    | eof => rcases rule with _ | ⟨_, _⟩ <;> rfl

theorem walk_of_step {level next : Level} {t grown : TokenTree} {s : Statement}
    (taken : step level t s = .ok (next, grown)) (ss : List Statement) :
    walk level t (s :: ss) = walk next grown ss := by
  rw [walk, taken]
  rfl

theorem walk_isOk_iff (level : Level) (t : TokenTree) (ss : List Statement) :
    (∃ tree, walk level t ss = .ok tree) ↔
      ((ss.map (·.ending)).foldlM depthBehind? level.depth).isSome = true := by
  induction ss generalizing level t with
  | nil => exact ⟨fun _ => rfl, fun _ => ⟨t, rfl⟩⟩
  | cons s ss ih =>
    have here := step_depth level t s
    rw [List.map_cons, List.foldlM_cons]
    cases behind : depthBehind? level.depth s.ending with
    | none =>
      rw [behind] at here
      have refused : walk level t (s :: ss) = .error s.start := by
        rw [walk, here]
        rfl
      rw [refused]
      constructor
      · rintro ⟨_, read⟩
        cases read
      · intro fits
        cases fits
    | some depth =>
      rw [behind] at here
      obtain ⟨next, grown, taken, rfl⟩ := here
      rw [walk_of_step taken, ih]
      rfl

theorem foldlM_depthBehind?_isSome_iff (depth : Nat) {es : List Ending} (noEnd : .eof ∉ es) :
    ((es ++ [Ending.eof]).foldlM depthBehind? depth).isSome = true ↔
      BalancedFrom depth (es.filterMap Ending.brace?) := by
  induction es generalizing depth with
  | nil =>
    rw [List.filterMap_nil, balancedFrom_nil, List.nil_append, List.foldlM_cons, depthBehind?]
    by_cases closed : depth = 0
    · rw [if_pos closed]
      exact ⟨fun _ => closed, fun _ => rfl⟩
    · rw [if_neg closed]
      constructor
      · intro fits
        cases fits
      · intro same
        exact absurd same closed
  | cons e es ih =>
    rw [List.mem_cons, not_or] at noEnd
    obtain ⟨other, noEnd⟩ := noEnd
    rw [List.cons_append, List.foldlM_cons]
    cases e with
    | eof => exact absurd rfl other
    | semicolon => exact ih depth noEnd
    | opening => exact (ih (depth + 1) noEnd).trans (balancedFrom_opening depth _).symm
    | closing =>
      cases depth with
      | zero =>
        constructor
        · intro fits
          cases fits
        · intro balanced
          exact absurd balanced (balancedFrom_zero_closing _)
      | succ depth => exact (ih depth noEnd).trans (balancedFrom_succ_closing depth _).symm

/-! ## Acceptance -/

theorem tree_isOk_iff (text : String) :
    (∃ t, tree text = .ok t) ↔ Balanced (structuralBraces (blankComments text.toList)) := by
  have walked : (∃ t, tree text = .ok t) ↔
      ∃ t, walk .top .empty (statements (blankComments text.toList)) = .ok t := by
    unfold tree
    split
    · next read => simp [read]
    · next refused => simp [refused]
  obtain ⟨before, split, noEnd⟩ :=
    endings_concat (.plain false) 0 (blankComments text.toList)
  have braces : structuralBraces (blankComments text.toList) =
      before.filterMap Ending.brace? := by
    rw [← filterMap_brace?_endings, split, List.filterMap_append]
    exact List.append_nil _
  rw [walked, walk_isOk_iff, statements, map_ending_statementsFrom, split, braces,
    ← balancedFrom_zero]
  exact foldlM_depthBehind?_isSome_iff 0 noEnd

end CodeOutline.Analysis.Less

namespace CodeOutline.Analyzer

open Analysis.Less (Balanced blankComments structuralBraces)

/-- A style sheet with variables is read just if its braces are balanced, comments and all that
is quoted, parenthesised or interpolated left out. Any other one is not well formed. -/
theorem less_read_isOk_iff (d : Document) (settings : LanguageSettings) :
    ((∃ t, Analyzer.less.read d settings = .ok t) ↔
      Balanced (structuralBraces (blankComments d.text.toList))) ∧
    ((∃ message, Analyzer.less.read d settings = .error (.parseFailure d.file message)) ↔
      ¬Balanced (structuralBraces (blankComments d.text.toList))) := by
  rw [← Analysis.Less.tree_isOk_iff]
  cases outcome : Analysis.Less.tree d.text with
  | ok t =>
    have read : Analyzer.less.read d settings = .ok t := by
      rw [Analyzer.read, outcome]
      rfl
    rw [read]
    simp
  | error message =>
    have read : Analyzer.less.read d settings = .error (.parseFailure d.file message) := by
      rw [Analyzer.read, outcome]
      rfl
    rw [read]
    simp

end CodeOutline.Analyzer
