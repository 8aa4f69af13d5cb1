import CodeOutline.Proofs.Less.Acceptance

/-!
A style sheet as a forest of statements and blocks. The text is cut at the semicolons and braces
that count, and a block holds what stands between its braces. A text has at most one forest, and
it has one just if its braces are balanced.
-/

set_option autoImplicit false

namespace CodeOutline.Analysis.Less

open Syntax (Place)

/-! ## Cutting a text -/

/-- What a brace ends: a heading, or the last statement of a block. -/
def Brace.ending : Brace → Ending
  | .opening => .opening
  | .closing => .closing

def mark? (c : Char) : Option Ending :=
  if c = ';' then some .semicolon else (brace? c).map Brace.ending

private theorem mark?_eq_ending? (c : Char) : mark? c = ending? c := by
  unfold mark? brace? ending?
  split
  · next semicolon =>
    subst semicolon
    rfl
  · split <;> simp_all [Brace.ending]

/-- The first semicolon or brace outside of quoted texts, parentheses and interpolations, and
what stands behind it. -/
def nextMark? (cs : List Char) : Option (Ending × List Char) :=
  match _found : afterLiteral? cs with
  | some rest => nextMark? rest
  | none =>
    match cs with
    | [] => none
    | c :: cs =>
      if c = '(' then nextMark? (afterParens 1 cs)
      else
        match mark? c with
        | some ending => some (ending, cs)
        | none => nextMark? cs
termination_by cs.length
decreasing_by
  · exact length_afterLiteral?_lt ‹_›
  · have := length_afterParens_le 1 cs
    simp only [List.length_cons]
    omega
  · simp

private def ComesTo (cs : List Char) : Option (Ending × List Char) → Prop
  | some (ending, rest) => ∃ mark, move (.plain false) 0 mark = .finish ending ∧
      Passes (.plain false) 0 0 cs (mark :: rest)
  | none => Passes (.plain false) 0 0 cs []

private theorem ComesTo.behind {cs later : List Char} {found : Option (Ending × List Char)}
    (comes : ComesTo later found) (first : Passes (.plain false) 0 0 cs later) :
    ComesTo cs found := by
  cases found with
  | none => exact first.trans comes
  | some found =>
    obtain ⟨mark, moved, passes⟩ := comes
    exact ⟨mark, moved, first.trans passes⟩

private theorem comesTo_nextMark? (cs : List Char) : ComesTo cs (nextMark? cs) := by
  fun_induction nextMark? cs with
  | case1 cs rest found ih => exact ih.behind (passes_literal found 0)
  | case2 => exact .refl 0 []
  | case3 cs found ih =>
    have opened : move (.plain false) 0 '(' = .next (.plain false) 1 := rfl
    exact ih.behind (.next opened (passes_parens 1 cs))
  | case4 c cs found notOpen ending ends =>
    rw [mark?_eq_ending?] at ends
    have notClosed : c ≠ ')' := by
      rintro rfl
      cases ends
    have moved := move_of_none found 0 notOpen notClosed
    rw [if_pos rfl, ends] at moved
    exact ⟨c, moved, .refl 0 (c :: cs)⟩
  | case5 c cs found notOpen noMark ih =>
    rw [mark?_eq_ending?] at noMark
    refine ih.behind ?_
    by_cases closes : c = ')'
    · subst closes
      have closed : move (.plain false) 0 ')' = .next (.plain false) 0 := rfl
      exact .next closed (.refl 0 cs)
    · exact passes_of_none found notOpen closes (fun _ => noMark)

theorem length_nextMark?_lt {cs rest : List Char} {ending : Ending}
    (found : nextMark? cs = some (ending, rest)) : rest.length < cs.length := by
  have comes := comesTo_nextMark? cs
  rw [found] at comes
  obtain ⟨mark, -, passed, rfl, -⟩ := comes
  simp only [List.length_append, List.length_cons]
  omega

/-- The statements of a text, cut at each mark that counts. -/
def cut (start : Place) (cs : List Char) : List Statement :=
  match _found : nextMark? cs with
  | none => [{ text := cs, start, ending := .eof }]
  | some (ending, rest) =>
    let taken := cs.take (cs.length - rest.length)
    { text := taken.dropLast, start, ending } :: cut (taken.foldl .next start) rest
termination_by cs.length
decreasing_by exact length_nextMark?_lt ‹_›

theorem statementsFrom_eq_cut (start : Place) (cs : List Char) :
    statementsFrom (.plain false) 0 start start [] cs = cut start cs := by
  fun_induction cut start cs with
  | case1 start cs noMark =>
    have comes := comesTo_nextMark? cs
    rw [noMark] at comes
    obtain ⟨passed, rfl, same⟩ := comes
    rw [same, List.append_nil, List.append_nil, statementsFrom, List.reverse_reverse]
  | case2 start cs ending rest found taken ih =>
    have comes := comesTo_nextMark? cs
    rw [found] at comes
    obtain ⟨mark, moved, passed, rfl, same⟩ := comes
    have all : taken = passed ++ [mark] := by
      have split : passed ++ mark :: rest = (passed ++ [mark]) ++ rest := by simp
      have front : (passed ++ mark :: rest).length - rest.length = (passed ++ [mark]).length := by
        rw [split, List.length_append, Nat.add_sub_cancel]
      change (passed ++ mark :: rest).take _ = _
      rw [front, split, List.take_left]
    rw [all, List.foldl_append, List.foldl_cons, List.foldl_nil] at ih
    rw [same, statementsFrom_cons, moved, all, List.dropLast_concat, List.append_nil,
      List.reverse_reverse, List.foldl_append, List.foldl_cons, List.foldl_nil]
    exact congrArg (_ :: ·) ih

theorem statements_eq_cut (cs : List Char) : statements cs = cut .origin cs :=
  statementsFrom_eq_cut .origin cs

theorem filterMap_brace?_cut (cs : List Char) :
    (cut .origin cs).filterMap (·.ending.brace?) = structuralBraces cs := by
  have run := map_ending_statementsFrom (.plain false) 0 .origin .origin [] cs
  rw [statementsFrom_eq_cut] at run
  rw [← filterMap_brace?_endings, ← run, List.filterMap_map]
  rfl

/-! ## Forests -/

/-- A text between marks, and where it starts. -/
structure Piece where
  text : List Char
  start : Place

/-- The statement that a mark makes of a piece. -/
def Piece.ended (p : Piece) (ending : Ending) : Statement :=
  { text := p.text, start := p.start, ending }

/-- A statement in front of its semicolon, or a block: its heading, the items between its
braces, and what stands between the last of them and the closing brace. -/
inductive Item
  | statement (p : Piece)
  | block (heading : Piece) (items : List Item) (last : Piece)

mutual

/-- The statements that an item is made of. -/
def Item.statements : Item → List Statement
  | .statement p => [p.ended .semicolon]
  | .block heading items last =>
    heading.ended .opening :: (statementsOf items ++ [last.ended .closing])

def statementsOf : List Item → List Statement
  | [] => []
  | item :: items => item.statements ++ statementsOf items

end

mutual

/-- The braces around a block and those inside, none for a statement. -/
def Item.braces : Item → List Brace
  | .statement _ => []
  | .block _ items _ => .opening :: (bracesOf items ++ [.closing])

def bracesOf : List Item → List Brace
  | [] => []
  | item :: items => item.braces ++ bracesOf items

end

/-- The text is made of the items and what stands behind the last of them. -/
def IsForest (cs : List Char) (items : List Item) : Prop :=
  ∃ last : Piece, cut .origin cs = statementsOf items ++ [last.ended .eof]

theorem statementsOf_statement (p : Piece) (items : List Item) (ss : List Statement) :
    statementsOf (.statement p :: items) ++ ss = p.ended .semicolon :: (statementsOf items ++ ss) :=
  rfl

theorem statementsOf_block (heading last : Piece) (inner items : List Item)
    (ss : List Statement) :
    statementsOf (.block heading inner last :: items) ++ ss =
      heading.ended .opening ::
        (statementsOf inner ++ last.ended .closing :: (statementsOf items ++ ss)) := by
  simp [statementsOf, Item.statements]

theorem Piece.ended_inj {p p' : Piece} {ending ending' : Ending}
    (same : p.ended ending = p'.ended ending') : p = p' ∧ ending = ending' := by
  obtain ⟨text, start⟩ := p
  obtain ⟨text', start'⟩ := p'
  obtain ⟨rfl, rfl, rfl⟩ := Statement.mk.inj same
  exact ⟨rfl, rfl⟩

private def EndsForest (ending : Ending) : Prop := ending = .closing ∨ ending = .eof

private theorem statementsOf_inj {items items' : List Item} {last last' : Piece}
    {ending ending' : Ending} (ends : EndsForest ending) (ends' : EndsForest ending')
    {ss ss' : List Statement} (same : statementsOf items ++ last.ended ending :: ss =
      statementsOf items' ++ last'.ended ending' :: ss') :
    items = items' ∧ last = last' ∧ ss = ss' := by
  have noEnd {e : Ending} (ends : EndsForest e) : e ≠ .semicolon ∧ e ≠ .opening := by
    rcases ends with rfl | rfl <;> exact ⟨by decide, by decide⟩
  match items, items' with
  | [], [] =>
    obtain ⟨head, tail⟩ := List.cons.inj same
    exact ⟨rfl, (Piece.ended_inj head).1, tail⟩
  | [], .statement _ :: _ =>
    exact absurd (Piece.ended_inj (List.cons.inj same).1).2 (noEnd ends).1
  | [], .block _ _ _ :: _ =>
    exact absurd (Piece.ended_inj (List.cons.inj same).1).2 (noEnd ends).2
  | .statement _ :: _, [] =>
    exact absurd (Piece.ended_inj (List.cons.inj same).1).2.symm (noEnd ends').1
  | .block _ _ _ :: _, [] =>
    exact absurd (Piece.ended_inj (List.cons.inj same).1).2.symm (noEnd ends').2
  | .statement _ :: _, .block _ _ _ :: _ =>
    exact absurd (Piece.ended_inj (List.cons.inj same).1).2 (by decide)
  | .block _ _ _ :: _, .statement _ :: _ =>
    exact absurd (Piece.ended_inj (List.cons.inj same).1).2 (by decide)
  | .statement p :: items, .statement p' :: items' =>
    obtain ⟨head, tail⟩ := List.cons.inj same
    obtain ⟨rfl, -⟩ := Piece.ended_inj head
    obtain ⟨rfl, later⟩ := statementsOf_inj ends ends' tail
    exact ⟨rfl, later⟩
  | .block heading inner close :: items, .block heading' inner' close' :: items' =>
    rw [statementsOf_block, statementsOf_block] at same
    obtain ⟨head, tail⟩ := List.cons.inj same
    obtain ⟨rfl, -⟩ := Piece.ended_inj head
    obtain ⟨rfl, rfl, behind⟩ := statementsOf_inj (.inl rfl) (.inl rfl) tail
    obtain ⟨rfl, later⟩ := statementsOf_inj ends ends' behind
    exact ⟨rfl, later⟩
termination_by sizeOf items

theorem IsForest.unique {cs : List Char} {items items' : List Item} (forest : IsForest cs items)
    (forest' : IsForest cs items') : items = items' := by
  obtain ⟨last, whole⟩ := forest
  obtain ⟨last', whole'⟩ := forest'
  exact (statementsOf_inj (.inr rfl) (.inr rfl) (whole.symm.trans whole')).1

mutual

private theorem filterMap_brace?_item : (item : Item) →
    item.statements.filterMap (·.ending.brace?) = item.braces
  | .statement _ => rfl
  | .block heading items last => by
    rw [Item.statements, List.filterMap_cons, List.filterMap_append,
      filterMap_brace?_statementsOf]
    rfl

private theorem filterMap_brace?_statementsOf : (items : List Item) →
    (statementsOf items).filterMap (·.ending.brace?) = bracesOf items
  | [] => rfl
  | item :: items => by
    rw [statementsOf, List.filterMap_append, filterMap_brace?_item,
      filterMap_brace?_statementsOf, bracesOf]

end

theorem IsForest.bracesOf_eq {cs : List Char} {items : List Item} (forest : IsForest cs items) :
    bracesOf items = structuralBraces cs := by
  obtain ⟨last, whole⟩ := forest
  have ended : [last.ended .eof].filterMap (·.ending.brace?) = [] := rfl
  rw [← filterMap_brace?_cut, whole, List.filterMap_append, filterMap_brace?_statementsOf, ended,
    List.append_nil]

/-! ## Balanced braces make a forest -/

mutual

private theorem balancedFrom_item (depth : Nat) (bs : List Brace) : (item : Item) →
    (BalancedFrom depth (item.statements.filterMap (·.ending.brace?) ++ bs) ↔
      BalancedFrom depth bs)
  | .statement _ => Iff.rfl
  | .block heading items last => by
    have inside := balancedFrom_items (depth + 1) (.closing :: bs) items
    rw [balancedFrom_succ_closing] at inside
    rw [← inside, ← balancedFrom_opening]
    simp [Item.statements, Piece.ended, Ending.brace?]

private theorem balancedFrom_items (depth : Nat) (bs : List Brace) : (items : List Item) →
    (BalancedFrom depth ((statementsOf items).filterMap (·.ending.brace?) ++ bs) ↔
      BalancedFrom depth bs)
  | [] => Iff.rfl
  | item :: items => by
    rw [statementsOf, List.filterMap_append, List.append_assoc, balancedFrom_item,
      balancedFrom_items]

end

private theorem exists_forests {depth : Nat} {ss : List Statement} {es : List Ending}
    (ends : ss.map (·.ending) = es ++ [.eof]) (noEnd : .eof ∉ es)
    (fits : ((es ++ [Ending.eof]).foldlM depthBehind? depth).isSome = true) :
    ∃ (items : List Item) (outer : List (Piece × List Item)) (last : Piece),
      outer.length = depth ∧ ss = statementsOf items ++
        (outer.flatMap (fun o => o.1.ended .closing :: statementsOf o.2) ++ [last.ended .eof]) := by
  induction ss generalizing depth es with
  | nil => exact absurd ends (by simp)
  | cons s ss ih =>
    obtain ⟨text, start, ending⟩ := s
    let p : Piece := ⟨text, start⟩
    cases es with
    | nil =>
      obtain ⟨rfl, none⟩ := List.cons.inj ends
      obtain rfl := List.map_eq_nil_iff.1 none
      cases depth with
      | zero => exact ⟨[], [], p, rfl, rfl⟩
      | succ depth => cases fits
    | cons e es =>
      obtain ⟨rfl, later⟩ := List.cons.inj ends
      rw [List.mem_cons, not_or] at noEnd
      rw [List.cons_append, List.foldlM_cons] at fits
      cases ending with
      | eof => exact absurd rfl noEnd.1
      | semicolon =>
        obtain ⟨items, outer, last, length, rfl⟩ := ih later noEnd.2 fits
        exact ⟨.statement p :: items, outer, last, length, rfl⟩
      | opening =>
        obtain ⟨inner, outer, last, length, rfl⟩ := ih later noEnd.2 fits
        cases outer with
        | nil => cases length
        | cons close outer =>
          obtain ⟨close, items⟩ := close
          refine ⟨.block p inner close :: items, outer, last, Nat.succ.inj length, ?_⟩
          rw [statementsOf_block, List.flatMap_cons, List.cons_append, List.cons_append,
            List.append_assoc]
          rfl
      | closing =>
        cases depth with
        | zero => cases fits
        | succ depth =>
          obtain ⟨items, outer, last, length, rfl⟩ := ih later noEnd.2 fits
          refine ⟨[], (p, items) :: outer, last, congrArg (· + 1) length, ?_⟩
          rw [List.flatMap_cons, List.cons_append, List.cons_append,
            List.append_assoc]
          rfl

theorem exists_forest_iff (cs : List Char) :
    (∃ items, IsForest cs items) ↔ Balanced (structuralBraces cs) := by
  constructor
  · rintro ⟨items, last, whole⟩
    have inside := balancedFrom_items 0 [] items
    rw [List.append_nil, balancedFrom_nil] at inside
    rw [← filterMap_brace?_cut, whole, List.filterMap_append, ← balancedFrom_zero]
    simpa [Piece.ended, Ending.brace?] using inside
  · intro balanced
    obtain ⟨before, ends, noEnd⟩ := endings_concat (.plain false) 0 cs
    have braces := filterMap_brace?_endings cs
    have none : [Ending.eof].filterMap Ending.brace? = [] := rfl
    rw [ends, List.filterMap_append, none, List.append_nil] at braces
    rw [← braces, ← balancedFrom_zero] at balanced
    have fits := (foldlM_depthBehind?_isSome_iff 0 noEnd).2 balanced
    rw [← map_ending_statementsFrom _ _ .origin .origin [], statementsFrom_eq_cut] at ends
    obtain ⟨items, outer, last, length, whole⟩ := exists_forests ends noEnd fits
    obtain rfl := List.length_eq_zero_iff.1 length
    exact ⟨items, last, whole⟩

end CodeOutline.Analysis.Less
