import CodeOutline.Proofs.Text.Pieces
import CodeOutline.Proofs.Text.Trimming
import CodeOutline.Proofs.Token.Firsts
import CodeOutline.Text.Comment

/-!
The lines of a text without its bracketed bodies, against the lines of the text itself. Lines that
begin inside of a body are hidden; what is left of them is joined to the last line before that is
not. Up to the first bracket a line shows what it is. Where bodies end at their own brackets the
hidden lines are those inside of brackets.
-/

set_option autoImplicit false

namespace CodeOutline.Text

/-! ## What stays of a text -/

/-- The characters of a text, and whether each of them stays. A body goes, from behind its opening
bracket to the first closing bracket behind a blank; `skip` characters belong to a body. -/
def markFrom : Nat → List Char → List (Char × Bool)
  | _, [] => []
  | skip + 1, c :: cs => (c, false) :: markFrom skip cs
  | 0, c :: cs => (c, true) :: markFrom (if c = '[' then (bodyLength? cs).getD 0 else 0) cs

/-- The characters that stay. -/
def kept (marks : List (Char × Bool)) : List Char := (marks.filter (·.2)).map (·.1)

theorem map_fst_markFrom (skip : Nat) (cs : List Char) :
    (markFrom skip cs).map (·.1) = cs := by
  induction cs generalizing skip with
  | nil => cases skip <;> rfl
  | cons c cs ih => cases skip <;> simp [markFrom, ih]

theorem lambda_of_other {c : Char} (other : c ≠ '[') (lineStart : Bool) (cs : List Char) :
    lambda lineStart (c :: cs) = none := by
  unfold lambda
  split
  · next same => exact absurd (List.cons.inj same).1 other
  · rfl

theorem replaceFrom_lambda (skip : Nat) (lineStart : Bool) (cs : List Char) :
    replaceFrom lambda skip lineStart cs = kept (markFrom skip cs) := by
  induction cs generalizing skip lineStart with
  | nil => cases skip <;> rfl
  | cons c cs ih =>
    cases skip with
    | succ skip =>
      rw [replaceFrom, ih]
      rfl
    | zero =>
      by_cases opens : c = '['
      · subst opens
        have found : lambda lineStart ('[' :: cs) = (bodyLength? cs).map (fun n => (1 + n, ['['])) :=
          rfl
        rw [replaceFrom, found, markFrom, if_pos rfl]
        cases bodyLength? cs with
        | none => simp [ih, kept]
        | some n => simp [ih, kept]
      · rw [replaceFrom, lambda_of_other opens, markFrom, if_neg opens]
        simp [ih, kept]

theorem stripLambdas_eq (cs : List Char) : stripLambdas cs = kept (markFrom 0 cs) :=
  replaceFrom_lambda 0 true cs

/-! ## Lines that stay -/

/-- The pieces of a text between its line feeds. -/
def pieces (cs : List Char) : List (List Char) := splitChars (· == '\n') cs

theorem pieces_feed (cs : List Char) : pieces ('\n' :: cs) = [] :: pieces cs :=
  splitChars_cons_of_sep rfl

theorem pieces_cons {c : Char} {cs piece : List Char} {more : List (List Char)}
    (other : c ≠ '\n') (later : pieces cs = piece :: more) :
    pieces (c :: cs) = (c :: piece) :: more := by
  refine splitChars_cons_of_other ?_ later
  exact beq_false_of_ne other

/-- A line that begins outside of all bodies, the lines behind it that begin inside of one, and
what is left of them, in one line. -/
structure Block where
  line : List Char
  hidden : List (List Char)
  shown : List Char

/-- A block begins behind each line feed that stays. -/
def blocks : List (Char × Bool) → List Block
  | [] => [⟨[], [], []⟩]
  | (c, stays) :: marks =>
    match blocks marks with
    | [] => []
    | b :: bs =>
      if c = '\n' then
        if stays then ⟨[], [], []⟩ :: b :: bs else ⟨[], b.line :: b.hidden, b.shown⟩ :: bs
      else ⟨c :: b.line, b.hidden, if stays then c :: b.shown else b.shown⟩ :: bs

/-- The lines of a block. -/
def Block.lines (b : Block) : List (List Char) := b.line :: b.hidden

section

variable {c : Char} {b : Block} {bs : List Block} {marks : List (Char × Bool)}

theorem blocks_ne_nil (marks : List (Char × Bool)) : blocks marks ≠ [] := by
  induction marks with
  | nil => simp [blocks]
  | cons m marks ih =>
    obtain ⟨c, stays⟩ := m
    obtain ⟨b, bs, later⟩ := List.exists_cons_of_ne_nil ih
    rw [blocks, later]
    dsimp only
    split
    · split <;> simp
    · simp

theorem blocks_feed_stays (later : blocks marks = b :: bs) :
    blocks (('\n', true) :: marks) = ⟨[], [], []⟩ :: b :: bs := by
  rw [blocks, later]
  rfl

theorem blocks_feed_goes (later : blocks marks = b :: bs) :
    blocks (('\n', false) :: marks) = ⟨[], b.line :: b.hidden, b.shown⟩ :: bs := by
  rw [blocks, later]
  rfl

theorem blocks_other (other : c ≠ '\n') (stays : Bool) (later : blocks marks = b :: bs) :
    blocks ((c, stays) :: marks) =
      ⟨c :: b.line, b.hidden, if stays then c :: b.shown else b.shown⟩ :: bs := by
  rw [blocks, later]
  exact if_neg other

end

theorem pieces_map_fst (marks : List (Char × Bool)) :
    pieces (marks.map (·.1)) = (blocks marks).flatMap Block.lines := by
  induction marks with
  | nil => rfl
  | cons m marks ih =>
    obtain ⟨c, stays⟩ := m
    obtain ⟨b, bs, later⟩ := List.exists_cons_of_ne_nil (blocks_ne_nil marks)
    rw [later, List.flatMap_cons] at ih
    by_cases feed : c = '\n'
    · subst feed
      rw [List.map_cons, pieces_feed, ih]
      cases stays with
      | true => rw [blocks_feed_stays later]; rfl
      | false => rw [blocks_feed_goes later]; rfl
    · rw [List.map_cons, pieces_cons feed ih, blocks_other feed stays later]
      rfl

theorem pieces_kept (marks : List (Char × Bool)) :
    pieces (kept marks) = (blocks marks).map (·.shown) := by
  induction marks with
  | nil => rfl
  | cons m marks ih =>
    obtain ⟨c, stays⟩ := m
    obtain ⟨b, bs, later⟩ := List.exists_cons_of_ne_nil (blocks_ne_nil marks)
    rw [later, List.map_cons] at ih
    by_cases feed : c = '\n'
    · subst feed
      cases stays with
      | true =>
        rw [blocks_feed_stays later, List.map_cons, List.map_cons, ← ih, ← pieces_feed]
        rfl
      | false =>
        rw [blocks_feed_goes later, List.map_cons, ← ih]
        rfl
    · rw [blocks_other feed stays later, List.map_cons]
      cases stays with
      | true =>
        rw [if_pos rfl, ← pieces_cons feed ih]
        rfl
      | false =>
        rw [if_neg Bool.false_ne_true, ← ih]
        rfl

/-- Two lines are the same, or the same up to a bracket. -/
def SameToBracket (line shown : List Char) : Prop :=
  line = shown ∨ ∃ front back back', line = front ++ '[' :: back ∧ shown = front ++ '[' :: back'

theorem SameToBracket.cons {line shown : List Char} (same : SameToBracket line shown) (c : Char) :
    SameToBracket (c :: line) (c :: shown) := by
  rcases same with rfl | ⟨front, back, back', rfl, rfl⟩
  · exact .inl rfl
  · exact .inr ⟨c :: front, back, back', rfl, rfl⟩

/-- The first line of a block is shown up to its first bracket, if the block begins outside of all
bodies. -/
theorem sameToBracket_blocks (skip : Nat) (cs : List Char) :
    (skip = 0 → ∀ b ∈ (blocks (markFrom skip cs)).head?, SameToBracket b.line b.shown) ∧
      ∀ b ∈ (blocks (markFrom skip cs)).tail, SameToBracket b.line b.shown := by
  induction cs generalizing skip with
  | nil => cases skip <;> exact ⟨by rintro _ _ ⟨⟩; exact .inl rfl, by rintro _ ⟨⟩⟩
  | cons c cs ih =>
    cases skip with
    | succ skip =>
      obtain ⟨-, behind⟩ := ih skip
      obtain ⟨b, bs, later⟩ := List.exists_cons_of_ne_nil (blocks_ne_nil (markFrom skip cs))
      rw [later] at behind
      refine ⟨by rintro ⟨⟩, ?_⟩
      rw [markFrom]
      by_cases feed : c = '\n'
      · subst feed
        rwa [blocks_feed_goes later]
      · rwa [blocks_other feed false later]
    | zero =>
      rw [markFrom]
      generalize next : (if c = '[' then (bodyLength? cs).getD 0 else 0) = skip
      obtain ⟨here, behind⟩ := ih skip
      obtain ⟨b, bs, later⟩ := List.exists_cons_of_ne_nil (blocks_ne_nil (markFrom skip cs))
      rw [later] at here behind
      have outside (other : c ≠ '[') : SameToBracket b.line b.shown := by
        rw [if_neg other] at next
        exact here next.symm b rfl
      by_cases feed : c = '\n'
      · subst feed
        rw [blocks_feed_stays later]
        refine ⟨by rintro _ _ ⟨⟩; exact .inl rfl, ?_⟩
        exact List.forall_mem_cons.2 ⟨outside (by decide), behind⟩
      · rw [blocks_other feed true later, if_pos rfl]
        refine ⟨?_, behind⟩
        rintro - _ ⟨⟩
        by_cases opens : c = '['
        · subst opens
          exact .inr ⟨[], b.line, b.shown, rfl, rfl⟩
        · exact (outside opens).cons c

/-- The blocks of a text. -/
def blocksOf (cs : List Char) : List Block := blocks (markFrom 0 cs)

theorem pieces_eq (cs : List Char) : pieces cs = (blocksOf cs).flatMap Block.lines := by
  rw [blocksOf, ← pieces_map_fst, map_fst_markFrom]

theorem pieces_stripLambdas (cs : List Char) :
    pieces (stripLambdas cs) = (blocksOf cs).map (·.shown) := by
  rw [stripLambdas_eq, pieces_kept]
  rfl

theorem sameToBracket_of_mem {cs : List Char} {b : Block} (member : b ∈ blocksOf cs) :
    SameToBracket b.line b.shown := by
  obtain ⟨here, behind⟩ := sameToBracket_blocks 0 cs
  obtain ⟨first, bs, all⟩ := List.exists_cons_of_ne_nil (blocks_ne_nil (markFrom 0 cs))
  rw [all] at here behind
  rw [blocksOf, all] at member
  rcases List.mem_cons.1 member with rfl | later
  · exact here rfl _ rfl
  · exact behind b later

/-! ## Brackets -/

/-- How many brackets are open at a place, and the quoted text that it stands in. -/
structure BracketState where
  depth : Nat := 0
  quote : Option Char := none
  isEscaped : Bool := false

/-- The state behind a character. Brackets in quoted texts are characters like others. -/
def BracketState.next (s : BracketState) (c : Char) : BracketState :=
  match s.quote with
  | some mark =>
    if s.isEscaped then { s with isEscaped := false }
    else if c = '\\' then { s with isEscaped := true }
    else if c = mark then { s with quote := none }
    else s
  | none =>
    if c = '"' || c = '\'' then { s with quote := some c }
    else if c = '[' then { s with depth := s.depth + 1 }
    else if c = ']' then { s with depth := s.depth - 1 }
    else s

def depthFrom (s : BracketState) (cs : List Char) : Nat := (cs.foldl .next s).depth

def depthBehind (cs : List Char) : Nat := depthFrom {} cs

section

variable {s : BracketState} {c : Char}

theorem BracketState.depth_le_next (other : c ≠ ']') : s.depth ≤ (s.next c).depth := by
  unfold next
  grind

theorem BracketState.next_le_depth (other : c ≠ '[') : (s.next c).depth ≤ s.depth := by
  unfold next
  grind

theorem BracketState.depth_next_feed : (s.next '\n').depth = s.depth :=
  le_antisymm (next_le_depth (by decide)) (depth_le_next (by decide))

end

/-- Each bracketed body ends at its own closing bracket: the one that closes it stands behind a
blank, and no bracket inside of it does. No bracket is open only in a quoted text, nor at the end. -/
structure BodiesEnd (cs : List Char) : Prop where
  opens : ∀ p ∈ withBefore [] cs, p.2 = '[' → 0 < depthBehind (p.1 ++ ['['])
  closes : ∀ p ∈ withBefore [] cs, p.2 = ']' → 0 < depthBehind p.1 →
    (depthBehind (p.1 ++ [']']) = 0 ↔ p.1.getLast?.any isBlank = true)
  closed : depthBehind cs = 0

instance (cs : List Char) : Decidable (BodiesEnd cs) :=
  decidable_of_iff ((∀ p ∈ withBefore [] cs, p.2 = '[' → 0 < depthBehind (p.1 ++ ['['])) ∧
    (∀ p ∈ withBefore [] cs, p.2 = ']' → 0 < depthBehind p.1 →
      (depthBehind (p.1 ++ [']']) = 0 ↔ p.1.getLast?.any isBlank = true)) ∧ depthBehind cs = 0)
    ⟨fun ⟨opens, closes, closed⟩ => ⟨opens, closes, closed⟩,
      fun ends => ⟨ends.opens, ends.closes, ends.closed⟩⟩

def outsideFrom (s : BracketState) : List Char → List (Char × Bool)
  | [] => []
  | c :: cs => (c, s.depth == 0) :: outsideFrom (s.next c) cs

def bodyEnd? (isBehindBlank : Bool) : List Char → Option Nat
  | [] => none
  | c :: cs => if isBehindBlank && c = ']' then some 1 else (bodyEnd? (isBlank c) cs).map (· + 1)

theorem bodyLength?_cons (c : Char) (cs : List Char) :
    bodyLength? (c :: cs) = (bodyEnd? (isBlank c) cs).map (· + 1) := by
  induction cs generalizing c with
  | nil => rfl
  | cons d cs ih =>
    rw [bodyEnd?, ← ih d]
    by_cases closes : d = ']'
    · subst closes
      rw [bodyLength?]
      cases isBlank c <;> rfl
    · rw [bodyLength?, decide_eq_false closes, Bool.and_false, if_neg Bool.false_ne_true]
      intro _ same
      exact closes (List.cons.inj same).1

theorem bodyLength?_eq (cs : List Char) : bodyLength? cs = bodyEnd? false cs := by
  cases cs with
  | nil => rfl
  | cons c cs => exact bodyLength?_cons c cs

theorem BodiesEnd.markFrom_eq {cs : List Char} (ends : BodiesEnd cs) :
    markFrom 0 cs = outsideFrom {} cs := by
  -- Inside of a body its end is known: it is where the scan by brackets comes out.
  have each (front back : List Char) (whole : cs = front ++ back) :
      (depthBehind front = 0 → markFrom 0 back = outsideFrom (front.foldl .next {}) back) ∧
        (0 < depthBehind front → ∃ n, bodyEnd? (front.getLast?.any isBlank) back = some n ∧
          markFrom n back = outsideFrom (front.foldl .next {}) back) := by
    induction back generalizing front with
    | nil =>
      rw [List.append_nil] at whole
      refine ⟨fun _ => rfl, fun inside => ?_⟩
      rw [← whole, ends.closed] at inside
      exact absurd inside (Nat.lt_irrefl 0)
    | cons c back ih =>
      have here : (front, c) ∈ withBefore [] cs := mem_withBefore.2 ⟨front, back, whole, rfl⟩
      obtain ⟨outside, inside⟩ := ih (front ++ [c]) (by simp [whole])
      have state : (front ++ [c]).foldl BracketState.next {} =
          (front.foldl BracketState.next {}).next c := by
        rw [List.foldl_append]
        rfl
      have depth : depthBehind (front ++ [c]) = ((front.foldl BracketState.next {}).next c).depth :=
        congrArg BracketState.depth state
      rw [state] at outside inside
      rw [List.getLast?_concat, Option.any_some] at inside
      refine ⟨fun top => ?_, fun open_ => ?_⟩
      · have flag : ((front.foldl BracketState.next {}).depth == 0) = true := by
          rw [beq_iff_eq]
          exact top
        rw [markFrom, outsideFrom, flag]
        by_cases opens : c = '['
        · subst opens
          obtain ⟨n, found, same⟩ := inside (ends.opens _ here rfl)
          rw [if_pos rfl, bodyLength?_eq]
          have plain : isBlank '[' = false := by decide
          rw [plain] at found
          rw [found, Option.getD_some, same]
        · rw [if_neg opens, outside]
          have less := BracketState.next_le_depth (s := front.foldl .next {}) opens
          rw [depth]
          exact Nat.le_zero.1 (Nat.le_trans less (Nat.le_of_eq top))
      · have flag : ((front.foldl BracketState.next {}).depth == 0) = false := by
          rw [beq_eq_false_iff_ne]
          exact Nat.ne_of_gt open_
        rw [outsideFrom, flag]
        by_cases closes : c = ']'
        · subst closes
          have own := ends.closes _ here rfl open_
          by_cases blank : front.getLast?.any isBlank = true
          · refine ⟨1, ?_, ?_⟩
            · rw [bodyEnd?, blank]
              rfl
            · rw [markFrom, outside (own.2 blank)]
          · obtain ⟨n, found, same⟩ := inside (Nat.pos_of_ne_zero (mt own.1 blank))
            refine ⟨n + 1, ?_, ?_⟩
            · rw [bodyEnd?, Bool.eq_false_iff.2 blank, found]
              rfl
            · rw [markFrom, same]
        · have more := BracketState.depth_le_next (s := front.foldl .next {}) closes
          obtain ⟨n, found, same⟩ := inside (depth ▸ Nat.lt_of_lt_of_le open_ more)
          refine ⟨n + 1, ?_, ?_⟩
          · rw [bodyEnd?, decide_eq_false closes, Bool.and_false, if_neg Bool.false_ne_true, found]
            rfl
          · rw [markFrom, same]
  exact (each [] cs rfl).1 rfl

/-! Lines outside of brackets -/

/-- The lines with their line feeds. -/
def joined (lines : List (List Char)) : List Char := lines.flatMap (· ++ ['\n'])

def flags (bs : List Block) : List (Bool × List Char) :=
  bs.flatMap (fun b => (true, b.line) :: b.hidden.map (fun l => (false, l)))

theorem map_snd_flags (bs : List Block) : (flags bs).map (·.2) = bs.flatMap Block.lines := by
  rw [flags, List.map_flatMap]
  refine congrArg bs.flatMap (funext fun b => ?_)
  rw [List.map_cons, List.map_map]
  exact congrArg (b.line :: ·) (List.map_id _)

def lineFlags (s : BracketState) (before lines : List (List Char)) : List (Bool × List Char) :=
  (withBefore before lines).map (fun p => (depthFrom s (joined p.1) == 0, p.2))

theorem lineFlags_cons (s : BracketState) (before : List (List Char)) (line : List Char)
    (lines : List (List Char)) : lineFlags s before (line :: lines) =
      (depthFrom s (joined before) == 0, line) :: lineFlags s (before ++ [line]) lines := rfl

theorem lineFlags_append (s : BracketState) (front before lines : List (List Char)) :
    lineFlags s (front ++ before) lines =
      lineFlags ((joined front).foldl .next s) before lines := by
  induction lines generalizing before with
  | nil => rfl
  | cons line lines ih =>
    have depth : depthFrom s (joined (front ++ before)) =
        depthFrom ((joined front).foldl .next s) (joined before) := by
      rw [depthFrom, joined, List.flatMap_append, List.foldl_append]
      rfl
    rw [lineFlags_cons, lineFlags_cons, depth, List.append_assoc, ih]

theorem lineFlags_singleton (s : BracketState) (line : List Char) (lines : List (List Char)) :
    lineFlags s [line] lines = lineFlags ((line ++ ['\n']).foldl .next s) [] lines := by
  have moved := lineFlags_append s [line] [] lines
  have one : joined [line] = line ++ ['\n'] := by simp [joined]
  rwa [List.append_nil, one] at moved

theorem tail_flags_outsideFrom (s : BracketState) (cs : List Char) :
    (flags (blocks (outsideFrom s cs))).tail = (lineFlags s [] (pieces cs)).tail := by
  induction cs generalizing s with
  | nil => rfl
  | cons c cs ih =>
    obtain ⟨b, bs, later⟩ := List.exists_cons_of_ne_nil (blocks_ne_nil (outsideFrom (s.next c) cs))
    have chars (s : BracketState) (cs : List Char) : (outsideFrom s cs).map (·.1) = cs := by
      induction cs generalizing s with
      | nil => rfl
      | cons c cs ih => rw [outsideFrom, List.map_cons, ih]
    have split : pieces cs = b.line :: (b.hidden ++ bs.flatMap Block.lines) := by
      have all := pieces_map_fst (outsideFrom (s.next c) cs)
      rw [chars, later] at all
      exact all
    have tails := ih (s.next c)
    rw [later, split, lineFlags_cons, List.nil_append, lineFlags_singleton,
      List.tail_cons] at tails
    rw [outsideFrom]
    by_cases feed : c = '\n'
    · subst feed
      have first : (depthFrom (s.next '\n') (joined []) == 0) = (s.depth == 0) :=
        congrArg (· == 0) BracketState.depth_next_feed
      have alone : ([] ++ ['\n']).foldl BracketState.next s = s.next '\n' := rfl
      rw [pieces_feed, split, lineFlags_cons, List.nil_append, lineFlags_singleton, alone,
        lineFlags_cons, first, List.nil_append, lineFlags_singleton]
      cases outside : s.depth == 0 with
      | true =>
        rw [blocks_feed_stays later, List.tail_cons, ← tails]
        rfl
      | false =>
        rw [blocks_feed_goes later, List.tail_cons, ← tails]
        rfl
    · rw [pieces_cons feed split, lineFlags_cons, List.nil_append, lineFlags_singleton,
        blocks_other feed _ later, List.tail_cons]
      exact tails

/-- Where bodies end at their own brackets, the hidden lines are those that begin inside of
brackets. -/
theorem BodiesEnd.flags_eq {cs : List Char} (ends : BodiesEnd cs) :
    flags (blocksOf cs) = lineFlags {} [] (pieces cs) := by
  have tails := tail_flags_outsideFrom {} cs
  rw [← ends.markFrom_eq] at tails
  obtain ⟨b, bs, all⟩ := List.exists_cons_of_ne_nil (blocks_ne_nil (markFrom 0 cs))
  have split : pieces cs = b.line :: (b.hidden ++ bs.flatMap Block.lines) := by
    rw [pieces_eq, blocksOf, all]
    rfl
  rw [all, split] at tails
  rw [blocksOf, all, split]
  exact congrArg ((true, b.line) :: ·) tails

end CodeOutline.Text
