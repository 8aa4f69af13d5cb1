import CodeOutline.Text.Comment
import Mathlib.Data.List.Infix
import Mathlib.Data.List.ReduceOption
import Mathlib.Data.List.TakeWhile

/-!
What one pass of comment removal leaves. The characters on both sides of a block comment that goes
come together and are not read again; whatever comment is left begins at such a seam.
-/

set_option autoImplicit false

namespace CodeOutline.Text

/-! ## Comments in a text -/

def keepsSlashes (c : Char) : Bool := c == '\\' || c == ':'

/-- The last character keeps two slashes behind it. -/
def endsKeeping (cs : List Char) : Bool := cs.getLast?.any keepsSlashes

@[simp]
theorem endsKeeping_concat (cs : List Char) (c : Char) :
    endsKeeping (cs ++ [c]) = keepsSlashes c := by
  rw [endsKeeping, List.getLast?_concat, Option.any_some]

/-- There is a block comment with its end. -/
def HasBlockComment (cs : List Char) : Prop :=
  ∃ before after, cs = before ++ '/' :: '*' :: after ∧ ['*', '/'] <:+: after

/-- There are two slashes behind no character that keeps them. -/
def HasLineComment (cs : List Char) : Prop :=
  ∃ before after, cs = before ++ '/' :: '/' :: after ∧ endsKeeping before = false

def HasComment (cs : List Char) : Prop := HasBlockComment cs ∨ HasLineComment cs

/-! ## Seams -/

/-- The characters that stay, in order, and `none` for each block comment that goes. Of the line
comments nothing is told; `skip` characters belong to the comment before. -/
def marksFrom : Nat → Bool → List Char → List (Option Char)
  | _, _, [] => []
  | skip + 1, _, c :: cs => marksFrom skip (c == '\n') cs
  | 0, lineStart, c :: cs =>
    match comment lineStart (c :: cs) with
    | some (taken, left) =>
      (if cs.head? = some '*' then [none] else left.map some) ++
        marksFrom (taken - 1) (c == '\n') cs
    | none => some c :: marksFrom 0 (c == '\n') cs

/-- What stays in front of each block comment that goes, and what stays behind it. -/
def seamsFrom : List Char → List (Option Char) → List (List Char × List Char)
  | _, [] => []
  | before, some c :: marks => seamsFrom (before ++ [c]) marks
  | before, none :: marks => (before, marks.reduceOption) :: seamsFrom before marks

def seams (cs : List Char) : List (List Char × List Char) := seamsFrom [] (marksFrom 0 true cs)

/-- A comment begins with a slash in front of the seam and a star or a slash behind it. -/
def Joins (seam : List Char × List Char) : Prop :=
  seam.1.getLast? = some '/' ∧ (seam.2.head? = some '*' ∧ ['*', '/'] <:+: seam.2.tail ∨
    seam.2.head? = some '/' ∧ endsKeeping seam.1.dropLast = false)

/-- A line comment begins directly behind the seam. -/
def LineBehind (seam : List Char × List Char) : Prop :=
  ['/', '/'] <+: seam.2 ∧ endsKeeping seam.1 = false

instance : DecidablePred Joins := fun _ => inferInstanceAs (Decidable (_ ∧ _))

instance : DecidablePred LineBehind := fun _ => inferInstanceAs (Decidable (_ ∧ _))

theorem mem_seamsFrom {before : List Char} {marks : List (Option Char)}
    {seam : List Char × List Char} :
    seam ∈ seamsFrom before marks ↔ ∃ front back, marks = front ++ none :: back ∧
      seam = (before ++ front.reduceOption, back.reduceOption) := by
  induction marks generalizing before with
  | nil => simp [seamsFrom]
  | cons mark marks ih =>
    cases mark with
    | some c =>
      rw [seamsFrom, ih]
      constructor
      · rintro ⟨front, back, rfl, rfl⟩
        exact ⟨some c :: front, back, rfl, by simp [List.reduceOption_cons_of_some]⟩
      · rintro ⟨front, back, parts, rfl⟩
        cases front with
        | nil => cases parts
        | cons _ front =>
          obtain ⟨rfl, rfl⟩ := List.cons.inj parts
          exact ⟨front, back, rfl, by simp [List.reduceOption_cons_of_some]⟩
    | none =>
      rw [seamsFrom, List.mem_cons, ih]
      constructor
      · rintro (rfl | ⟨front, back, rfl, rfl⟩)
        · exact ⟨[], marks, rfl, by simp⟩
        · exact ⟨none :: front, back, rfl, by simp [List.reduceOption_cons_of_none]⟩
      · rintro ⟨front, back, parts, rfl⟩
        cases front with
        | nil =>
          obtain ⟨-, rfl⟩ := List.cons.inj parts
          exact .inl (by simp)
        | cons _ front =>
          obtain ⟨rfl, rfl⟩ := List.cons.inj parts
          exact .inr ⟨front, back, rfl, by simp [List.reduceOption_cons_of_none]⟩

/-! ## The pass, comment by comment -/

/-- One pass over a text: each character stays, or a comment begins with it. -/
inductive Pass : Bool → List Char → List (Option Char) → Prop
  | nil (lineStart : Bool) : Pass lineStart [] []
  | stays {lineStart : Bool} {c : Char} {cs : List Char} {marks : List (Option Char)}
      (none_ : comment lineStart (c :: cs) = none) (rest : Pass (c == '\n') cs marks) :
      Pass lineStart (c :: cs) (some c :: marks)
  | block {lineStart : Bool} {inside cs : List Char} {marks : List (Option Char)}
      (rest : Pass false cs marks) :
      Pass lineStart ('/' :: '*' :: (inside ++ '*' :: '/' :: cs)) (none :: marks)
  /-- A line comment with the character before it. -/
  | behind {lineStart : Bool} {c : Char} {inside cs : List Char} {marks : List (Option Char)}
      (follows : keepsSlashes c = false) (ends : cs = [] ∨ ∃ more, cs = '\n' :: more)
      (rest : Pass false cs marks) :
      Pass lineStart (c :: '/' :: '/' :: (inside ++ cs)) (some c :: marks)
  /-- A line comment at the beginning of a line. -/
  | line {inside cs : List Char} {marks : List (Option Char)}
      (ends : cs = [] ∨ ∃ more, cs = '\n' :: more) (rest : Pass false cs marks) :
      Pass true ('/' :: '/' :: (inside ++ cs)) marks

/-! ### What the matcher finds -/

section Matcher

variable {c : Char} {cs left : List Char} {n taken : Nat} {lineStart : Bool}

theorem exists_of_blockLength? (found : blockLength? cs = some n) :
    ∃ inside rest, cs = inside ++ '*' :: '/' :: rest ∧ n = inside.length + 2 := by
  induction cs using blockLength?.induct generalizing n with
  | case1 => cases found
  | case2 rest =>
    obtain rfl := Option.some.inj found
    exact ⟨[], rest, rfl, rfl⟩
  | case3 c cs other ih =>
    rw [blockLength?] at found
    · obtain ⟨m, later, rfl⟩ := Option.map_eq_some_iff.1 found
      obtain ⟨inside, rest, rfl, rfl⟩ := ih later
      exact ⟨c :: inside, rest, rfl, by simp⟩
    · exact other

theorem not_ended_of_blockLength? (missing : blockLength? cs = none) : ¬['*', '/'] <:+: cs := by
  induction cs using blockLength?.induct with
  | case1 => decide
  | case2 rest => cases missing
  | case3 c cs other ih =>
    rw [blockLength?, Option.map_eq_none_iff] at missing
    · rw [List.infix_cons_iff, not_or]
      refine ⟨?_, ih missing⟩
      rintro ⟨rest, here⟩
      obtain ⟨first, later⟩ := List.cons.inj here
      exact other rest first.symm later.symm
    · exact other

theorem lineComment_of_some (found : lineComment lineStart (c :: cs) = some (taken, left)) :
    (keepsSlashes c = false ∧ left = [c] ∧ ∃ rest, cs = '/' :: '/' :: rest ∧
        taken = 3 + lineLength rest) ∨
      (lineStart = true ∧ c = '/' ∧ left = [] ∧ ∃ rest, cs = '/' :: rest ∧
        taken = 2 + lineLength rest) := by
  unfold lineComment at found
  split at found
  · next rest same =>
    obtain ⟨rfl, rfl⟩ := List.cons.inj same
    split at found
    · next free =>
      obtain ⟨rfl, rfl⟩ := Prod.mk.inj (Option.some.inj found)
      exact .inl ⟨by simpa [keepsSlashes] using free, rfl, rest, rfl, rfl⟩
    · cases found
  · next rest _ same =>
    obtain ⟨rfl, rfl⟩ := List.cons.inj same
    split at found
    · next start =>
      obtain ⟨rfl, rfl⟩ := Prod.mk.inj (Option.some.inj found)
      exact .inr ⟨start, rfl, rfl, rest, rfl, rfl⟩
    · cases found
  · cases found

theorem comment_of_some (found : comment lineStart (c :: cs) = some (taken, left)) :
    (c = '/' ∧ left = [] ∧ ∃ inside rest, cs = '*' :: (inside ++ '*' :: '/' :: rest) ∧
        taken = inside.length + 4) ∨
      (keepsSlashes c = false ∧ left = [c] ∧ ∃ rest, cs = '/' :: '/' :: rest ∧
        taken = 3 + lineLength rest) ∨
      (lineStart = true ∧ c = '/' ∧ left = [] ∧ ∃ rest, cs = '/' :: rest ∧
        taken = 2 + lineLength rest) := by
  unfold comment at found
  split at found
  · next rest same =>
    obtain ⟨rfl, rfl⟩ := List.cons.inj same
    split at found
    · next n length =>
      obtain ⟨rfl, rfl⟩ := Prod.mk.inj (Option.some.inj found)
      obtain ⟨inside, rest, rfl, rfl⟩ := exists_of_blockLength? length
      exact .inl ⟨rfl, rfl, inside, rest, rfl, by omega⟩
    · exact .inr (lineComment_of_some found)
  · exact .inr (lineComment_of_some found)

theorem lineComment_of_none (missing : lineComment lineStart (c :: cs) = none) :
    (∀ rest, cs = '/' :: '/' :: rest → keepsSlashes c = true) ∧
      (c = '/' → ∀ rest, cs = '/' :: rest → lineStart = false) := by
  unfold lineComment at missing
  split at missing
  · next rest same =>
    obtain ⟨rfl, rfl⟩ := List.cons.inj same
    split at missing
    · cases missing
    · next kept =>
      have keeps : keepsSlashes c = true := by simpa [keepsSlashes, or_iff_not_imp_left] using kept
      refine ⟨fun _ _ => keeps, ?_⟩
      rintro rfl
      cases keeps
  · next rest short same =>
    obtain ⟨rfl, rfl⟩ := List.cons.inj same
    refine ⟨?_, fun _ _ _ => ?_⟩
    · rintro more same
      obtain ⟨-, rfl⟩ := List.cons.inj same
      exact absurd rfl (short more)
    · split at missing
      · cases missing
      · next inside => exact Bool.eq_false_iff.2 inside
  · next other short =>
    refine ⟨?_, ?_⟩
    · rintro rest rfl
      exact absurd rfl (other c rest)
    · rintro rfl rest rfl
      exact absurd rfl (short rest)

theorem comment_of_none (missing : comment lineStart (c :: cs) = none) :
    (c = '/' → ∀ rest, cs = '*' :: rest → ¬['*', '/'] <:+: rest) ∧
      (∀ rest, cs = '/' :: '/' :: rest → keepsSlashes c = true) ∧
      (c = '/' → ∀ rest, cs = '/' :: rest → lineStart = false) := by
  unfold comment at missing
  split at missing
  · next rest same =>
    obtain ⟨rfl, rfl⟩ := List.cons.inj same
    split at missing
    · cases missing
    · next open_ =>
      refine ⟨?_, lineComment_of_none missing⟩
      rintro - rest same
      obtain ⟨-, rfl⟩ := List.cons.inj same
      exact not_ended_of_blockLength? open_
  · next other =>
    refine ⟨?_, lineComment_of_none missing⟩
    rintro rfl rest rfl
    exact absurd rfl (other rest)

end Matcher

/-! ### The pass and its marks -/

theorem marksFrom_skip (taken : List Char) (filled : taken ≠ []) (lineStart : Bool)
    (cs : List Char) : marksFrom taken.length lineStart (taken ++ cs) =
      marksFrom 0 (taken.getLast? == some '\n') cs := by
  induction taken generalizing lineStart with
  | nil => exact absurd rfl filled
  | cons c taken ih =>
    rw [List.length_cons, List.cons_append, marksFrom]
    cases taken with
    | nil => rfl
    | cons d taken => rw [ih (List.cons_ne_nil d taken), List.getLast?_cons_cons]

theorem marksFrom_line (slashes : List Char) (filled : slashes ≠ []) (plain : '\n' ∉ slashes)
    (lineStart : Bool) (cs : List Char) : ∃ inside rest, cs = inside ++ rest ∧
      (rest = [] ∨ ∃ more, rest = '\n' :: more) ∧
      marksFrom (slashes.length + lineLength cs) lineStart (slashes ++ cs) =
        marksFrom 0 false rest := by
  refine ⟨cs.takeWhile (· != '\n'), cs.dropWhile (· != '\n'),
    List.takeWhile_append_dropWhile.symm, ?ends, ?skip⟩
  case ends =>
    have stops := List.head?_dropWhile_not (· != '\n') cs
    cases after : cs.dropWhile (· != '\n') with
    | nil => exact .inl rfl
    | cons c more =>
      rw [after] at stops
      have feed : c = '\n' := by simpa using stops
      exact .inr ⟨more, by rw [feed]⟩
  case skip =>
    have none_ : '\n' ∉ slashes ++ cs.takeWhile (· != '\n') := by
      rw [List.mem_append, not_or]
      exact ⟨plain, fun inside => absurd (List.mem_takeWhile_imp inside) (by decide)⟩
    have last : ((slashes ++ cs.takeWhile (· != '\n')).getLast? == some '\n') = false := by
      refine beq_eq_false_iff_ne.2 (fun ends => none_ (List.mem_of_getLast? ends))
    have skip := marksFrom_skip (slashes ++ cs.takeWhile (· != '\n')) (by simp [filled])
      lineStart (cs.dropWhile (· != '\n'))
    rwa [List.length_append, List.append_assoc, List.takeWhile_append_dropWhile, last] at skip

theorem pass_marksFrom (lineStart : Bool) (cs : List Char) :
    Pass lineStart cs (marksFrom 0 lineStart cs) := by
  induction length : cs.length using Nat.strong_induction_on generalizing lineStart cs with
  | _ n ih =>
    subst length
    cases cs with
    | nil =>
      rw [marksFrom]
      exact .nil lineStart
    | cons c cs =>
      rw [marksFrom]
      cases found : comment lineStart (c :: cs) with
      | none => exact .stays found (ih _ (by simp) (c == '\n') cs rfl)
      | some m =>
        obtain ⟨taken, left⟩ := m
        rcases comment_of_some found with
          ⟨rfl, rfl, inside, rest, rfl, rfl⟩ | ⟨free, rfl, more, rfl, rfl⟩ |
          ⟨rfl, rfl, rfl, more, rfl, rfl⟩
        · have skip := marksFrom_skip ('*' :: inside ++ ['*'] ++ ['/']) (by simp)
            ('/' == '\n') rest
          have last : ('/' == '\n') = false := by decide
          have whole : '*' :: inside ++ ['*'] ++ ['/'] ++ rest =
              '*' :: (inside ++ '*' :: '/' :: rest) := by simp
          have count : ('*' :: inside ++ ['*'] ++ ['/']).length = inside.length + 4 - 1 := by simp
          rw [List.getLast?_concat, Option.some_beq_some, last, whole, count] at skip
          dsimp only
          rw [last, skip]
          exact .block (ih rest.length (by simp; omega) false rest rfl)
        · obtain ⟨inside, rest, rfl, ends, skip⟩ := marksFrom_line ['/', '/'] (by simp)
            (by decide) (c == '\n') more
          have count : 3 + lineLength (inside ++ rest) - 1 =
            ['/', '/'].length + lineLength (inside ++ rest) := by
            rw [List.length_cons, List.length_singleton]
            omega
          dsimp only
          rw [count]
          have rest_ := ih rest.length (by simp; omega) false rest rfl
          rw [← skip] at rest_
          exact .behind free ends rest_
        · obtain ⟨inside, rest, rfl, ends, skip⟩ := marksFrom_line ['/'] (by simp)
            (by decide) ('/' == '\n') more
          have count : 2 + lineLength (inside ++ rest) - 1 =
            ['/'].length + lineLength (inside ++ rest) := by
            rw [List.length_singleton]
            omega
          dsimp only
          rw [count]
          have rest_ := ih rest.length (by simp; omega) false rest rfl
          rw [← skip] at rest_
          exact .line ends rest_

theorem replaceFrom_comment (skip : Nat) (lineStart : Bool) (cs : List Char) :
    replaceFrom comment skip lineStart cs = (marksFrom skip lineStart cs).reduceOption := by
  induction cs generalizing skip lineStart with
  | nil => cases skip <;> rfl
  | cons c cs ih =>
    cases skip with
    | succ skip => rw [replaceFrom, marksFrom, ih]
    | zero =>
      rw [replaceFrom, marksFrom]
      cases found : comment lineStart (c :: cs) with
      | none => simp only [ih, List.reduceOption_cons_of_some]
      | some m =>
        obtain ⟨taken, left⟩ := m
        have stays :
            (if cs.head? = some '*' then [none] else left.map some).reduceOption = left := by
          rcases comment_of_some found with
            ⟨rfl, rfl, inside, rest, rfl, -⟩ | ⟨-, rfl, more, rfl, -⟩ | ⟨-, -, rfl, more, rfl, -⟩
          all_goals rfl
        simp only [ih, List.reduceOption_append, stays]

theorem stripComments_eq (cs : List Char) :
    stripComments cs = (marksFrom 0 true cs).reduceOption := replaceFrom_comment 0 true cs

/-! ## What stays without a seam -/

namespace Pass

variable {lineStart : Bool} {c : Char} {cs : List Char} {marks back : List (Option Char)}

theorem ended (pass : Pass lineStart cs marks) (ends : cs = [] ∨ ∃ more, cs = '\n' :: more) :
    marks = [] ∨ ∃ more, marks = some '\n' :: more := by
  have begins {d : Char} {more : List Char}
      (ends : d :: more = [] ∨ ∃ more', d :: more = '\n' :: more') : d = '\n' := by
    rcases ends with nothing | ⟨_, same⟩
    · cases nothing
    · exact (List.cons.inj same).1
  cases pass with
  | nil => exact .inl rfl
  | stays _ rest => exact .inr ⟨_, by rw [begins ends]⟩
  | behind _ _ rest => exact .inr ⟨_, by rw [begins ends]⟩
  | block rest => cases begins ends
  | line _ rest => cases begins ends

/-- A character that stays is the next one of the text. No comment begins with it unless the line
ends behind it. -/
theorem head (pass : Pass lineStart cs (some c :: marks)) (plain : c ≠ '\n') :
    ∃ more, cs = c :: more ∧ (comment lineStart (c :: more) = none ∧ Pass false more marks ∨
      marks = [] ∨ ∃ later, marks = some '\n' :: later) := by
  cases pass with
  | stays none_ rest =>
    rw [beq_eq_false_iff_ne.2 plain] at rest
    exact ⟨_, rfl, .inl ⟨none_, rest⟩⟩
  | behind _ ends rest => exact ⟨_, rfl, .inr (rest.ended ends)⟩
  | line ends rest =>
    rcases rest.ended ends with nothing | ⟨_, feed⟩
    · cases nothing
    · exact absurd (Option.some.inj (List.cons.inj feed).1) plain

theorem tail (pass : Pass lineStart cs (some c :: marks)) (plain : c ≠ '\n') :
    ∃ more later lineStart', cs = c :: more ∧ later <:+ more ∧ Pass lineStart' later marks := by
  cases pass with
  | stays _ rest => exact ⟨_, _, _, rfl, List.suffix_rfl, rest⟩
  | @behind _ _ inside later _ _ _ rest =>
    exact ⟨_, later, false, rfl, ⟨'/' :: '/' :: inside, rfl⟩, rest⟩
  | line ends rest =>
    rcases rest.ended ends with nothing | ⟨_, feed⟩
    · cases nothing
    · exact absurd (Option.some.inj (List.cons.inj feed).1) plain

/-- Two characters that stay beside each other stand so in the text, and no comment begins with the
first one. -/
theorem pair {d : Char} (pass : Pass lineStart cs (some c :: some d :: marks)) (plain : c ≠ '\n')
    (plain' : d ≠ '\n') : ∃ more, cs = c :: d :: more ∧
      comment lineStart (c :: d :: more) = none ∧ Pass false (d :: more) (some d :: marks) := by
  obtain ⟨more, rfl, ⟨none_, rest⟩ | nothing | ⟨later, feed⟩⟩ := pass.head plain
  · obtain ⟨behind, rfl, -⟩ := rest.head plain'
    exact ⟨behind, rfl, none_, rest⟩
  · cases nothing
  · exact absurd (Option.some.inj (List.cons.inj feed).1) plain'

theorem not_lineStart (pass : Pass lineStart cs (some '/' :: some '/' :: marks)) :
    lineStart = false := by
  obtain ⟨more, rfl, none_, -⟩ := pass.pair (by decide) (by decide)
  exact (comment_of_none none_).2.2 rfl _ rfl

theorem keepsSlashes_of_stays (pass : Pass lineStart cs marks) {front : List (Option Char)}
    (parts : marks = front ++ some c :: some '/' :: some '/' :: back) : keepsSlashes c = true := by
  induction pass generalizing front with
  | nil => simp at parts
  | @stays lineStart d cs marks none_ rest ih =>
    cases front with
    | nil =>
      obtain ⟨same, rfl⟩ := List.cons.inj parts
      obtain rfl := Option.some.inj same
      obtain ⟨more, rfl, -⟩ := rest.pair (by decide) (by decide)
      exact (comment_of_none none_).2.1 _ rfl
    | cons _ front => exact ih (List.cons.inj parts).2
  | block rest ih =>
    cases front with
    | nil => cases parts
    | cons _ front => exact ih (List.cons.inj parts).2
  | behind _ ends rest ih =>
    cases front with
    | nil =>
      obtain ⟨-, rfl⟩ := List.cons.inj parts
      rcases rest.ended ends with nothing | ⟨_, feed⟩
      · cases nothing
      · cases feed
    | cons _ front => exact ih (List.cons.inj parts).2
  | line _ rest ih => exact ih parts

theorem ended_of_none (pass : Pass lineStart cs (none :: marks)) : ['*', '/'] <:+: cs := by
  cases pass with
  | @block _ inside rest => exact ⟨'/' :: '*' :: inside, rest, by simp⟩
  | line ends rest =>
    rcases rest.ended ends with nothing | ⟨_, feed⟩
    · cases nothing
    · cases feed

theorem ended_of_stays (pass : Pass lineStart cs marks)
    (inside : ['*', '/'] <:+: marks.reduceOption) : ['*', '/'] <:+: cs := by
  induction pass with
  | nil => exact inside
  | @stays lineStart d cs marks none_ rest ih =>
    rw [List.reduceOption_cons_of_some, List.infix_cons_iff] at inside
    rcases inside with leads | later
    · obtain ⟨rfl, slash⟩ := List.cons_prefix_cons.1 leads
      match marks, rest, slash with
      | [], _, slash => simp at slash
      | none :: _, rest, _ => exact List.infix_cons rest.ended_of_none
      | some c :: marks, rest, slash =>
        rw [List.reduceOption_cons_of_some] at slash
        obtain ⟨rfl, -⟩ := List.cons_prefix_cons.1 slash
        obtain ⟨more, rfl, -⟩ := rest.head (by decide)
        exact ⟨[], more, rfl⟩
    · exact List.infix_cons (ih later)
  | @block lineStart inner cs marks rest ih => exact ⟨'/' :: '*' :: inner, cs, by simp⟩
  | @behind lineStart d inner cs marks _ ends rest ih =>
    rw [List.reduceOption_cons_of_some, List.infix_cons_iff] at inside
    rcases inside with leads | later
    · obtain ⟨-, leads⟩ := List.cons_prefix_cons.1 leads
      rcases rest.ended ends with rfl | ⟨later, rfl⟩
      · simp at leads
      · simp [List.reduceOption_cons_of_some, List.cons_prefix_cons] at leads
    · exact (ih later).trans ⟨d :: '/' :: '/' :: inner, [], by simp⟩
  | @line inner cs marks _ rest ih => exact (ih inside).trans ⟨'/' :: '/' :: inner, [], by simp⟩

theorem not_ended (pass : Pass lineStart cs marks) {front : List (Option Char)}
    (parts : marks = front ++ some '/' :: some '*' :: back) :
    ¬['*', '/'] <:+: back.reduceOption := by
  induction pass generalizing front with
  | nil => simp at parts
  | stays none_ rest ih =>
    cases front with
    | nil =>
      obtain ⟨same, rfl⟩ := List.cons.inj parts
      obtain rfl := Option.some.inj same
      obtain ⟨more, later, _, rfl, from_, rest⟩ := rest.tail (by decide)
      exact fun inside => (comment_of_none none_).1 rfl more rfl
        ((rest.ended_of_stays inside).trans from_.isInfix)
    | cons _ front => exact ih (List.cons.inj parts).2
  | block rest ih =>
    cases front with
    | nil => cases parts
    | cons _ front => exact ih (List.cons.inj parts).2
  | behind _ ends rest ih =>
    cases front with
    | nil =>
      obtain ⟨-, rfl⟩ := List.cons.inj parts
      rcases rest.ended ends with nothing | ⟨_, feed⟩
      · cases nothing
      · cases feed
    | cons _ front => exact ih (List.cons.inj parts).2
  | line _ rest ih => exact ih parts

theorem length_le (pass : Pass lineStart cs marks) : marks.reduceOption.length ≤ cs.length := by
  induction pass with
  | nil => exact Nat.le_refl _
  | stays _ rest ih => simpa using ih
  | block rest ih => simp; omega
  | behind _ _ rest ih => simp; omega
  | line _ rest ih => simp; omega

theorem marks_of_unchanged (pass : Pass lineStart cs marks) (same : marks.reduceOption = cs) :
    marks = cs.map some := by
  have shorter {left taken : List Char} (less : left.length < taken.length) : left ≠ taken :=
    fun equal => absurd (equal ▸ less) (Nat.lt_irrefl _)
  induction pass with
  | nil => rfl
  | stays _ rest ih =>
    rw [List.reduceOption_cons_of_some] at same
    rw [ih (List.cons.inj same).2, List.map_cons]
  | block rest ih =>
    have := rest.length_le
    exact absurd same (shorter (by simp; omega))
  | behind _ _ rest ih =>
    have := rest.length_le
    exact absurd same (shorter (by simp; omega))
  | line _ rest ih =>
    have := rest.length_le
    exact absurd same (shorter (by simp; omega))

theorem marks_of_not_hasComment (pass : Pass lineStart cs marks) (before : List Char)
    (start : lineStart = true → ∀ c ∈ before.getLast?, c = '\n')
    (free : ¬HasComment (before ++ cs)) : marks = cs.map some := by
  induction pass generalizing before with
  | nil => rfl
  | @stays _ c _ _ _ rest ih =>
    rw [List.map_cons, ih (before ++ [c]) ?_ (by simpa using free)]
    rw [List.getLast?_concat]
    rintro feed _ ⟨⟩
    exact beq_iff_eq.1 feed
  | @block _ inside cs _ rest _ =>
    exact absurd (.inl ⟨before, inside ++ '*' :: '/' :: cs, rfl, inside, cs, by simp⟩) free
  | @behind _ c inside cs _ follows _ rest _ =>
    exact absurd (.inr ⟨before ++ [c], inside ++ cs, by simp, by simpa using follows⟩) free
  | @line inside cs _ _ rest _ =>
    refine absurd (.inr ⟨before, inside ++ cs, rfl, ?_⟩) free
    cases last : before.getLast? with
    | none => rw [endsKeeping, last, Option.any_none]
    | some c =>
      rw [endsKeeping, last, start rfl c last]
      rfl

end Pass

/-! ## The result of a pass -/

section Result

variable {cs before after : List Char} {marks : List (Option Char)} {a b : Char}

theorem beside_or_seam (kept : marks.reduceOption = before ++ a :: b :: after) :
    (∃ front back, marks = front ++ some a :: some b :: back ∧ front.reduceOption = before ∧
        back.reduceOption = after) ∨ (before ++ [a], b :: after) ∈ seamsFrom [] marks := by
  obtain ⟨front, back, rfl, left, right⟩ := (List.reduceOption_eq_append_iff marks (before ++ [a])
    (b :: after)).1 (by simp [kept])
  obtain ⟨ahead, gone, rfl, rfl, nothing⟩ := (List.reduceOption_eq_concat_iff front before a).1
    (by simp [left])
  obtain ⟨gone', _, back, rfl, nothing', ⟨⟩, rest⟩ := List.filterMap_eq_cons_iff.1 right
  have rest : back.reduceOption = after := rest
  have between : (gone ++ gone').reduceOption = [] := by
    rw [List.reduceOption_append, nothing, List.nil_append]
    exact List.filterMap_eq_nil_iff.2 nothing'
  have whole : ahead ++ some a :: gone ++ (gone' ++ some b :: back) =
      ahead ++ some a :: (gone ++ gone') ++ some b :: back := by simp
  rw [whole]
  cases gap : gone ++ gone' with
  | nil => exact .inl ⟨ahead, back, by simp, rfl, rest⟩
  | cons mark gap' =>
    rw [gap] at between
    cases mark with
    | some c => cases between
    | none =>
      refine .inr (mem_seamsFrom.2 ⟨ahead ++ [some a], gap' ++ some b :: back, by simp, ?_⟩)
      rw [List.reduceOption_cons_of_none] at between
      simp [List.reduceOption_append, between, rest]

theorem comment_at_seam (pass : Pass true cs marks) (left : HasComment marks.reduceOption) :
    ∃ seam ∈ seamsFrom [] marks, Joins seam ∨ LineBehind seam := by
  rcases left with ⟨before, after, kept, ended⟩ | ⟨before, after, kept, follows⟩
  · rcases beside_or_seam kept with ⟨front, back, parts, -, rfl⟩ | seam
    · exact absurd ended (pass.not_ended parts)
    · exact ⟨_, seam, .inl ⟨List.getLast?_concat, .inl ⟨rfl, ended⟩⟩⟩
  · rcases beside_or_seam kept with ⟨front, back, parts, rfl, rfl⟩ | seam
    · rcases List.eq_nil_or_concat front with rfl | ⟨front, last, rfl⟩
      · subst parts
        exact absurd pass.not_lineStart (by decide)
      · cases last with
        | none =>
          exact ⟨_, mem_seamsFrom.2 ⟨front, some '/' :: some '/' :: back, by simp [parts], rfl⟩,
            .inr ⟨by simp, by simpa [List.reduceOption_append] using follows⟩⟩
        | some c =>
          have keeps := @Pass.keepsSlashes_of_stays _ c _ _ back pass front (by simp [parts])
          have free : keepsSlashes c = false := by simpa [List.reduceOption_append] using follows
          exact absurd (keeps.symm.trans free) (by decide)
    · exact ⟨_, seam, .inl ⟨List.getLast?_concat, .inr ⟨rfl, by simpa using follows⟩⟩⟩

theorem seam_append {seam : List Char × List Char} (cut : seam ∈ seamsFrom before marks) :
    seam.1 ++ seam.2 = before ++ marks.reduceOption := by
  obtain ⟨front, back, rfl, rfl⟩ := mem_seamsFrom.1 cut
  simp [List.reduceOption_append]

theorem hasComment_of_joins {seam : List Char × List Char} (joins : Joins seam) :
    HasComment (seam.1 ++ seam.2) := by
  obtain ⟨left, right⟩ := seam
  obtain ⟨last, second⟩ := joins
  obtain ⟨before, rfl⟩ := List.getLast?_eq_some_iff.1 last
  rcases second with ⟨first, ended⟩ | ⟨first, follows⟩
  · obtain ⟨after, rfl⟩ := List.head?_eq_some_iff.1 first
    exact .inl ⟨before, after, by simp, ended⟩
  · obtain ⟨after, rfl⟩ := List.head?_eq_some_iff.1 first
    exact .inr ⟨before, after, by simp, by simpa using follows⟩

theorem stripComments_eq_self_iff (cs : List Char) : stripComments cs = cs ↔ ¬HasComment cs := by
  have pass := pass_marksFrom true cs
  rw [stripComments_eq]
  constructor
  · intro same comment_
    have all := pass.marks_of_unchanged same
    obtain ⟨seam, cut, -⟩ := comment_at_seam pass (by rwa [same])
    obtain ⟨front, back, parts, -⟩ := mem_seamsFrom.1 cut
    have none_ : none ∈ cs.map some := by
      rw [← all, parts]
      simp
    simp at none_
  · intro free
    rw [pass.marks_of_not_hasComment [] (by simp) free]
    simp [List.reduceOption]

end Result

/-- Where no line comment begins directly behind a block comment that goes, a pass leaves a comment
only where a seam joins one, and a second pass changes nothing unless one does. -/
theorem stripComments_complete_iff (cs : List Char)
    (clear : ∀ seam ∈ seams cs, ¬LineBehind seam) :
    (HasComment (stripComments cs) ↔ ∃ seam ∈ seams cs, Joins seam) ∧
      (stripComments (stripComments cs) = stripComments cs ↔ ∀ seam ∈ seams cs, ¬Joins seam) := by
  have left : HasComment (stripComments cs) ↔ ∃ seam ∈ seams cs, Joins seam := by
    rw [stripComments_eq]
    constructor
    · intro comment_
      obtain ⟨seam, cut, joins | behind⟩ := comment_at_seam (pass_marksFrom true cs) comment_
      · exact ⟨seam, cut, joins⟩
      · exact absurd behind (clear seam cut)
    · rintro ⟨seam, cut, joins⟩
      have whole := hasComment_of_joins joins
      rwa [seam_append cut] at whole
  refine ⟨left, ?_⟩
  rw [stripComments_eq_self_iff, left]
  push Not
  rfl

theorem stripComments_complete_between :
    (∀ seam ∈ seams "a // b\n/* c */d".toList, ¬LineBehind seam) ∧
      stripComments (stripComments "a // b\n/* c */d".toList) =
        stripComments "a // b\n/* c */d".toList := by
  have clear : ∀ seam ∈ seams "a // b\n/* c */d".toList, ¬LineBehind seam := by decide
  exact ⟨clear, (stripComments_complete_iff _ clear).2.2 (by decide)⟩

/-- The slash that a colon keeps and the star behind the first comment begin a new one. -/
theorem stripComments_not_idempotent :
    stripComments (stripComments "://*a*/*b*/".toList) ≠ stripComments "://*a*/*b*/".toList := by
  decide

end CodeOutline.Text
