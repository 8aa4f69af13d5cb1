import CodeOutline.Analysis.Less

/-!
The braces of a style sheet that count are found by leaving out what is quoted, parenthesised or
interpolated. The scan by states ends its statements at the same braces.
-/

set_option autoImplicit false

namespace CodeOutline.Analysis.Less

/-! ## The braces that count -/

inductive Brace
  | opening | closing
deriving DecidableEq, Repr

def afterQuoted (mark : Char) : List Char → List Char
  | [] => []
  | c :: cs =>
    if c = '\\' then
      match cs with
      | [] => []
      | _ :: cs => afterQuoted mark cs
    else if c = mark then cs
    else afterQuoted mark cs

def afterInterpolation (cs : List Char) : List Char := (cs.dropWhile (· != '\x7d')).drop 1

/-- What stands behind the quoted text or the interpolation at the beginning of a text. -/
def afterLiteral? : List Char → Option (List Char)
  | '@' :: '\x7b' :: cs => some (afterInterpolation cs)
  | c :: cs => if c = '"' || c = '\'' then some (afterQuoted c cs) else none
  | [] => none

theorem length_afterQuoted_le (mark : Char) (cs : List Char) :
    (afterQuoted mark cs).length ≤ cs.length := by
  fun_induction afterQuoted mark cs with
  | case1 | case2 | case4 => simp
  | case3 _ cs ih | case5 _ cs _ _ ih =>
    simp only [List.length_cons]
    omega

theorem length_afterInterpolation_le (cs : List Char) :
    (afterInterpolation cs).length ≤ cs.length := by
  have shorter := (List.dropWhile_suffix (fun c => c != '\x7d') (l := cs)).length_le
  rw [afterInterpolation, List.length_drop]
  omega

theorem length_afterLiteral?_lt {cs rest : List Char} (found : afterLiteral? cs = some rest) :
    rest.length < cs.length := by
  unfold afterLiteral? at found
  split at found
  · next cs =>
    obtain rfl := Option.some.inj found
    have := length_afterInterpolation_le cs
    simp only [List.length_cons]
    omega
  · next c cs _ =>
    split at found
    · obtain rfl := Option.some.inj found
      have := length_afterQuoted_le c cs
      simp only [List.length_cons]
      omega
    · cases found
  · cases found

/-- What stands behind so many open parentheses. -/
def afterParens (depth : Nat) (cs : List Char) : List Char :=
  if depth = 0 then cs
  else
    match _found : afterLiteral? cs with
    | some rest => afterParens depth rest
    | none =>
      match cs with
      | [] => []
      | c :: cs =>
        if c = '(' then afterParens (depth + 1) cs
        else if c = ')' then afterParens (depth - 1) cs
        else afterParens depth cs
termination_by cs.length
decreasing_by
  · exact length_afterLiteral?_lt ‹_›
  all_goals simp

theorem length_afterParens_le (depth : Nat) (cs : List Char) :
    (afterParens depth cs).length ≤ cs.length := by
  fun_induction afterParens depth cs with
  | case1 => exact Nat.le_refl _
  | case2 _ _ _ rest found ih =>
    have := length_afterLiteral?_lt found
    omega
  | case3 => simp
  | case4 _ _ _ _ ih | case5 _ _ _ _ _ ih | case6 _ _ _ _ _ _ ih =>
    simp only [List.length_cons]
    omega

/-- The brace that a character is. -/
def brace? (c : Char) : Option Brace :=
  match c with
  | '\x7b' => some .opening
  | '\x7d' => some .closing
  | _ => none

/-- The braces outside of quoted texts, parentheses and interpolations, from left to right.
A closing parenthesis that closes nothing is a character like others. -/
def structuralBraces (cs : List Char) : List Brace :=
  match _found : afterLiteral? cs with
  | some rest => structuralBraces rest
  | none =>
    match cs with
    | [] => []
    | c :: cs =>
      if c = '(' then structuralBraces (afterParens 1 cs)
      else (brace? c).toList ++ structuralBraces cs
termination_by cs.length
decreasing_by
  · exact length_afterLiteral?_lt ‹_›
  · have := length_afterParens_le 1 cs
    simp only [List.length_cons]
    omega
  · simp

/-! ## The scan by states -/

inductive Move
  | finish (ending : Ending)
  | next (s : ScanState) (depth : Nat)

/-- What the scan of statements does at a character. -/
def move (s : ScanState) (depth : Nat) (c : Char) : Move :=
  match s with
  | .plain isAfterAt =>
    if c = '"' || c = '\'' then .next (.quoted c false) depth
    else if c = '(' then .next (.plain false) (depth + 1)
    else if c = ')' then .next (.plain false) (depth - 1)
    else if c = '\x7b' && isAfterAt then .next .interpolated depth
    else
      match if depth = 0 then ending? c else none with
      | some ending => .finish ending
      | none => .next (.plain (c == '@')) depth
  | s => .next (s.inner c) depth

theorem statementsFrom_cons (s : ScanState) (depth : Nat) (start place : Syntax.Place)
    (text : List Char) (c : Char) (cs : List Char) :
    statementsFrom s depth start place text (c :: cs) =
      match move s depth c with
      | .finish ending => { text := text.reverse, start, ending } ::
          statementsFrom (.plain false) 0 (place.next c) (place.next c) [] cs
      | .next s depth => statementsFrom s depth start (place.next c) (c :: text) cs := by
  cases s with
  | quoted | interpolated => rfl
  | plain isAfterAt =>
    rw [statementsFrom, move]
    dsimp only
    by_cases quotes : (c = '"' || c = '\'') = true
    · rw [if_pos quotes, if_pos quotes]
    rw [if_neg quotes, if_neg quotes]
    by_cases opens : c = '('
    · rw [if_pos opens, if_pos opens]
    rw [if_neg opens, if_neg opens]
    by_cases closes : c = ')'
    · rw [if_pos closes, if_pos closes]
    rw [if_neg closes, if_neg closes]
    by_cases interpolates : (c = '\x7b' && isAfterAt) = true
    · rw [if_pos interpolates, if_pos interpolates]
    rw [if_neg interpolates, if_neg interpolates]
    cases if depth = 0 then ending? c else none <;> rfl

theorem ending?_of_finish {s : ScanState} {depth : Nat} {c : Char} {ending : Ending}
    (moved : move s depth c = .finish ending) : ending? c = some ending := by
  cases s with
  | quoted | interpolated => cases moved
  | plain isAfterAt =>
    unfold move at moved
    grind

theorem ending?_ne_eof (c : Char) : ending? c ≠ some .eof := by
  unfold ending?
  split <;> simp

theorem ne_eof_of_finish {s : ScanState} {depth : Nat} {c : Char} {ending : Ending}
    (moved : move s depth c = .finish ending) : .eof ≠ ending := by
  rintro rfl
  exact ending?_ne_eof c (ending?_of_finish moved)

def endings (s : ScanState) (depth : Nat) : List Char → List Ending
  | [] => [.eof]
  | c :: cs =>
    match move s depth c with
    | .finish ending => ending :: endings (.plain false) 0 cs
    | .next s depth => endings s depth cs

theorem map_ending_statementsFrom (s : ScanState) (depth : Nat) (start place : Syntax.Place)
    (text cs : List Char) :
    (statementsFrom s depth start place text cs).map (·.ending) = endings s depth cs := by
  induction cs generalizing s depth start place text with
  | nil => rfl
  | cons c cs ih =>
    rw [statementsFrom_cons, endings]
    cases move s depth c with
    | finish ending => exact congrArg (ending :: ·) (ih ..)
    | next s depth => exact ih ..

section Moves

variable {s s' : ScanState} {depth depth' : Nat} {c : Char} {ending : Ending}

theorem endings_next (moved : move s depth c = .next s' depth') (cs : List Char) :
    endings s depth (c :: cs) = endings s' depth' cs := by
  rw [endings, moved]

theorem endings_finish (moved : move s depth c = .finish ending) (cs : List Char) :
    endings s depth (c :: cs) = ending :: endings (.plain false) 0 cs := by
  rw [endings, moved]

end Moves

theorem endings_concat (s : ScanState) (depth : Nat) (cs : List Char) :
    ∃ before, endings s depth cs = before ++ [.eof] ∧ .eof ∉ before := by
  induction cs generalizing s depth with
  | nil => exact ⟨[], rfl, List.not_mem_nil⟩
  | cons c cs ih =>
    cases moved : move s depth c with
    | next s' depth' =>
      rw [endings_next moved]
      exact ih s' depth'
    | finish ending =>
      obtain ⟨before, split, absent⟩ := ih (.plain false) 0
      refine ⟨ending :: before, ?_, ?_⟩
      · rw [endings_finish moved, split, List.cons_append]
      · exact List.not_mem_cons_of_ne_of_not_mem (ne_eof_of_finish moved) absent

/-! ## The scan leaves out the same -/

/-- From the state `s` the scan comes to plain text in front of `rest`, and no statement ends
before. -/
def Passes (s : ScanState) (depth depth' : Nat) (cs rest : List Char) : Prop :=
  ∃ passed, passed ++ rest = cs ∧ ∀ (start place : Syntax.Place) (text : List Char),
    statementsFrom s depth start place text cs =
      statementsFrom (.plain false) depth' start (passed.foldl .next place)
        (passed.reverse ++ text) rest

namespace Passes

variable {s s' : ScanState} {depth depth' depth'' : Nat} {c : Char} {cs middle rest : List Char}

theorem refl (depth : Nat) (cs : List Char) : Passes (.plain false) depth depth cs cs :=
  ⟨[], rfl, fun _ _ _ => rfl⟩

theorem nil (s : ScanState) (depth : Nat) : Passes s depth depth [] [] :=
  ⟨[], rfl, fun _ _ _ => rfl⟩

theorem next (moved : move s depth c = .next s' depth') (later : Passes s' depth' depth'' cs rest) :
    Passes s depth depth'' (c :: cs) rest := by
  obtain ⟨passed, whole, same⟩ := later
  refine ⟨c :: passed, congrArg (c :: ·) whole, ?_⟩
  intro start place text
  rw [statementsFrom_cons, moved, List.foldl_cons, List.reverse_cons, List.append_assoc]
  exact same start (place.next c) (c :: text)

theorem trans (first : Passes s depth depth' cs middle)
    (second : Passes (.plain false) depth' depth'' middle rest) :
    Passes s depth depth'' cs rest := by
  obtain ⟨passed, rfl, same⟩ := first
  obtain ⟨passed', rfl, same'⟩ := second
  refine ⟨passed ++ passed', List.append_assoc .., ?_⟩
  intro start place text
  rw [same, same', List.foldl_append, List.reverse_append, List.append_assoc]

theorem endings (passes : Passes s depth depth' cs rest) :
    endings s depth cs = Less.endings (.plain false) depth' rest := by
  obtain ⟨passed, -, same⟩ := passes
  have ends := congrArg (List.map (·.ending)) (same .origin .origin [])
  rwa [map_ending_statementsFrom, map_ending_statementsFrom] at ends

end Passes

theorem passes_quoted (mark : Char) (depth : Nat) (cs : List Char) :
    Passes (.quoted mark false) depth depth cs (afterQuoted mark cs) := by
  fun_induction afterQuoted mark cs with
  | case1 => exact .nil _ _
  | case2 => exact .next rfl (.nil _ _)
  | case3 c cs ih =>
    have escaped : move (.quoted mark true) depth c = .next (.quoted mark false) depth := rfl
    exact .next rfl (.next escaped ih)
  | case4 cs noEscape =>
    have moved : move (.quoted mark false) depth mark = .next (.plain false) depth := by
      simp [move, ScanState.inner, noEscape]
    exact .next moved (.refl depth cs)
  | case5 c cs noEscape other ih =>
    have moved : move (.quoted mark false) depth c = .next (.quoted mark false) depth := by
      simp [move, ScanState.inner, noEscape, other]
    exact .next moved ih

theorem passes_interpolated (depth : Nat) (cs : List Char) :
    Passes .interpolated depth depth cs (afterInterpolation cs) := by
  induction cs with
  | nil => exact .nil _ _
  | cons c cs ih =>
    by_cases closes : c = '\x7d'
    · subst closes
      exact .next rfl (.refl depth cs)
    · have moved : move .interpolated depth c = .next .interpolated depth := by
        simp [move, ScanState.inner, closes]
      have skipped : afterInterpolation (c :: cs) = afterInterpolation cs := by
        simp [afterInterpolation, closes]
      rw [skipped]
      exact .next moved ih

theorem passes_plain_true {cs : List Char} (apart : cs.head? ≠ some '\x7b') (depth : Nat) :
    Passes (.plain true) depth depth cs cs := by
  refine ⟨[], rfl, fun start place text => ?_⟩
  cases cs with
  | nil => rfl
  | cons c cs =>
    have other : c ≠ '\x7b' := by simpa using apart
    have same : move (.plain true) depth c = move (.plain false) depth c := by
      simp [move, other]
    rw [statementsFrom_cons, same, ← statementsFrom_cons]
    rfl

theorem passes_literal {cs rest : List Char} (found : afterLiteral? cs = some rest)
    (depth : Nat) : Passes (.plain false) depth depth cs rest := by
  unfold afterLiteral? at found
  split at found
  · next cs =>
    obtain rfl := Option.some.inj found
    have atSign : move (.plain false) depth '@' = .next (.plain true) depth := by
      cases depth <;> rfl
    have brace : move (.plain true) depth '\x7b' = .next .interpolated depth := rfl
    exact .next atSign (.next brace (passes_interpolated depth cs))
  · next c cs _ =>
    split at found
    · next quotes =>
      obtain rfl := Option.some.inj found
      have moved : move (.plain false) depth c = .next (.quoted c false) depth := by
        rw [move, if_pos quotes]
      exact .next moved (passes_quoted c depth cs)
    · cases found
  · cases found

section NoLiteral

variable {c : Char} {cs : List Char} (found : afterLiteral? (c :: cs) = none)

include found

theorem not_quotes_of_none : ¬(c = '"' || c = '\'') = true := by
  intro quotes
  unfold afterLiteral? at found
  split at found
  · cases found
  · next same =>
    obtain ⟨rfl, rfl⟩ := List.cons.inj same
    rw [if_pos quotes] at found
    cases found
  · next same => cases same

theorem passes_behind_of_none (depth : Nat) : Passes (.plain (c == '@')) depth depth cs cs := by
  by_cases atSign : c = '@'
  · subst atSign
    refine passes_plain_true ?_ depth
    intro brace
    obtain ⟨rest, rfl⟩ := List.head?_eq_some_iff.1 brace
    cases found
  · rw [beq_false_of_ne atSign]
    exact .refl depth cs

theorem move_of_none (depth : Nat) (notOpen : c ≠ '(') (notClosed : c ≠ ')') :
    move (.plain false) depth c =
      match if depth = 0 then ending? c else none with
      | some ending => .finish ending
      | none => .next (.plain (c == '@')) depth := by
  rw [move, if_neg (not_quotes_of_none found), if_neg notOpen, if_neg notClosed, Bool.and_false]
  rfl

theorem passes_of_none {depth : Nat} (notOpen : c ≠ '(') (notClosed : c ≠ ')')
    (noMark : depth = 0 → ending? c = none) : Passes (.plain false) depth depth (c :: cs) cs := by
  have plain := move_of_none found depth notOpen notClosed
  have goesOn : (if depth = 0 then ending? c else none) = none := by
    by_cases top : depth = 0
    · rw [if_pos top, noMark top]
    · rw [if_neg top]
  rw [goesOn] at plain
  exact .next plain (passes_behind_of_none found depth)

end NoLiteral

theorem passes_parens (depth : Nat) (cs : List Char) :
    Passes (.plain false) depth 0 cs (afterParens depth cs) := by
  fun_induction afterParens depth cs with
  | case1 cs => exact .refl 0 cs
  | case2 depth cs _ rest found ih => exact (passes_literal found depth).trans ih
  | case3 => exact ⟨[], rfl, fun _ _ _ => rfl⟩
  | case4 depth _ cs _ ih =>
    have opened : move (.plain false) depth '(' = .next (.plain false) (depth + 1) := rfl
    exact .next opened ih
  | case5 depth _ cs _ _ ih =>
    have closed : move (.plain false) depth ')' = .next (.plain false) (depth - 1) := rfl
    exact .next closed ih
  | case6 depth inside c cs found notOpen notClosed ih =>
    exact (passes_of_none found notOpen notClosed (absurd · inside)).trans ih

/-- The brace that ends a statement. -/
def Ending.brace? : Ending → Option Brace
  | .opening => some .opening
  | .closing => some .closing
  | .semicolon | .eof => none

theorem filterMap_brace?_ending? (c : Char) :
    (ending? c).toList.filterMap Ending.brace? = (brace? c).toList := by
  unfold ending? brace?
  split <;> simp_all [Ending.brace?]

theorem filterMap_brace?_endings (cs : List Char) :
    (endings (.plain false) 0 cs).filterMap Ending.brace? = structuralBraces cs := by
  fun_induction structuralBraces cs with
  | case1 cs rest found ih => rw [(passes_literal found 0).endings, ih]
  | case2 => rfl
  | case3 cs found ih =>
    have opened : endings (.plain false) 0 ('(' :: cs) = endings (.plain false) 1 cs := rfl
    rw [opened, (passes_parens 1 cs).endings, ih]
  | case4 c cs found notOpen ih =>
    by_cases closes : c = ')'
    · subst closes
      exact ih
    · cases ends : ending? c with
      | none =>
        have passes : Passes (.plain false) 0 0 (c :: cs) cs :=
          passes_of_none found notOpen closes (fun _ => ends)
        have noBrace := filterMap_brace?_ending? c
        rw [ends] at noBrace
        rw [passes.endings, ih, ← noBrace]
        rfl
      | some ending =>
        have moved := move_of_none found 0 notOpen closes
        rw [if_pos rfl, ends] at moved
        rw [endings_finish moved, ← filterMap_brace?_ending? c, ends, ← ih,
          Option.toList_some, ← List.filterMap_append, List.singleton_append]

-- Only the block counts: not the interpolation, not the quoted brace, not the one in an address.
example : structuralBraces ".@\x7bn\x7d \x7b a: \"\x7d\" url(\x7b); \x7d".toList =
    [.opening, .closing] := by cbv

end CodeOutline.Analysis.Less
