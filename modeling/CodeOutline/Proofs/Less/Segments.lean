import CodeOutline.Analysis.Less
import CodeOutline.Proofs.Text.Points
import Mathlib.Data.List.TakeWhile

/-!
A style sheet as characters and whole comments. Blanking puts spaces in place of the comments and
keeps every place; what is not blank afterwards stands outside of comments, where it stood before.
-/

set_option autoImplicit false

namespace CodeOutline.Analysis.Less

open Syntax (Place)

/-- A character outside of comments, or a whole comment. -/
inductive Segment
  | code (c : Char)
  | comment (cs : List Char)

namespace Segment

/-- What is written. -/
def text : Segment → List Char
  | .code c => [c]
  | .comment cs => cs

/-- What is left when comments are blanked. -/
def blanked : Segment → List Char
  | .code c => [c]
  | .comment cs => cs.flatMap Less.blanked

end Segment

def commentAt? (s : Context) (cs : List Char) : Option Nat :=
  match s with
  | .plain depth => commentLength? depth cs
  | .quoted _ _ _ => none

def segments (s : Context) : List Char → List Segment
  | [] => []
  | c :: cs =>
    match commentAt? s (c :: cs) with
    | some (n + 1) => .comment (c :: cs.take n) :: segments s (cs.drop n)
    | _ => .code c :: segments (s.next c) cs
termination_by cs => cs.length
decreasing_by
  · simp only [List.length_drop, List.length_cons]
    omega
  · simp

def IsComment (cs : List Char) : Prop :=
  (∃ body, cs = '/' :: '*' :: body) ∨ ∃ body, cs = '/' :: '/' :: body ∧ '\n' ∉ body

theorem isComment_take {depth n : Nat} {cs : List Char}
    (found : commentLength? depth cs = some (n + 1)) : IsComment (cs.take (n + 1)) := by
  unfold commentLength? at found
  split at found
  · next rest =>
    have long : 2 ≤ n + 1 := by
      split at found
      · have length := Option.some.inj found
        omega
      · have length := Option.some.inj found
        simp only [List.length_cons] at length
        omega
    obtain ⟨m, two⟩ := Nat.exists_eq_add_of_le' long
    rw [two]
    exact .inl ⟨rest.take m, rfl⟩
  · next rest =>
    split at found
    · have line : ('/' :: '/' :: rest).take (n + 1) =
          ('/' :: '/' :: rest).takeWhile (· != '\n') := by
        rw [← Option.some.inj found]
        exact (List.prefix_iff_eq_take.1 (List.takeWhile_prefix _)).symm
      refine .inr ⟨rest.takeWhile (· != '\n'), ?_, ?_⟩
      · rw [line]
        rfl
      · intro feed
        exact absurd (List.mem_takeWhile_imp feed) (by decide)
    · cases found
  · cases found

theorem isComment_of_mem_segments {s : Context} {cs comment : List Char}
    (member : .comment comment ∈ segments s cs) : IsComment comment := by
  fun_induction segments s cs with
  | case1 => cases member
  | case2 s c cs n found ih =>
    rcases List.mem_cons.1 member with same | later
    · obtain rfl := Segment.comment.inj same
      cases s with
      | plain depth => exact isComment_take found
      | quoted mark isEscaped depth => cases found
    · exact ih later
  | case3 s c cs _ ih =>
    rcases List.mem_cons.1 member with same | later
    · cases same
    · exact ih later

theorem flatMap_text_segments (s : Context) (cs : List Char) :
    (segments s cs).flatMap Segment.text = cs := by
  fun_induction segments s cs with
  | case1 => rfl
  | case2 s c cs n _ ih =>
    rw [List.flatMap_cons, ih, Segment.text, List.cons_append, List.take_append_drop]
  | case3 s c cs _ ih => rw [List.flatMap_cons, ih]; rfl

theorem blankFrom_skip (s : Context) (n : Nat) (cs : List Char) :
    blankFrom s n cs = (cs.take n).flatMap blanked ++ blankFrom s 0 (cs.drop n) := by
  induction n generalizing cs with
  | zero => rfl
  | succ n ih =>
    cases cs with
    | nil => rfl
    | cons c cs =>
      rw [blankFrom, ih, List.take_succ_cons, List.flatMap_cons, List.append_assoc,
        List.drop_succ_cons]

theorem blankFrom_cons (s : Context) (c : Char) (cs : List Char) :
    blankFrom s 0 (c :: cs) =
      match commentAt? s (c :: cs) with
      | some (n + 1) => blanked c ++ blankFrom s n cs
      | _ => c :: blankFrom (s.next c) 0 cs := by
  cases s <;> rfl

theorem blankFrom_comment {s : Context} {c : Char} {cs : List Char} {n : Nat}
    (found : commentAt? s (c :: cs) = some (n + 1)) :
    blankFrom s 0 (c :: cs) = (c :: cs.take n).flatMap blanked ++ blankFrom s 0 (cs.drop n) := by
  rw [blankFrom_cons, found]
  dsimp only
  rw [blankFrom_skip s n cs, List.flatMap_cons, List.append_assoc]

theorem blankFrom_code {s : Context} {c : Char} {cs : List Char}
    (other : ∀ n, commentAt? s (c :: cs) ≠ some (n + 1)) :
    blankFrom s 0 (c :: cs) = c :: blankFrom (s.next c) 0 cs := by
  rw [blankFrom_cons]
  split
  · next n found => exact absurd found (other n)
  · rfl

theorem blankFrom_eq_flatMap (s : Context) (cs : List Char) :
    blankFrom s 0 cs = (segments s cs).flatMap Segment.blanked := by
  fun_induction segments s cs with
  | case1 => rfl
  | case2 s c cs n found ih =>
    rw [blankFrom_comment found, ih]
    rfl
  | case3 s c cs other ih =>
    rw [blankFrom_code other, ih]
    rfl

/-! What is not blank -/

theorem isBlank_of_mem_blanked {c d : Char} (member : d ∈ blanked c) : Text.isBlank d = true := by
  unfold blanked at member
  split at member
  · next feed =>
    obtain rfl := List.mem_singleton.1 member
    rw [feed]
    decide
  · obtain ⟨-, rfl⟩ := List.mem_replicate.1 member
    decide

theorem exists_code {ss : List Segment} {a b : List Char} {c : Char}
    (whole : ss.flatMap Segment.blanked = a ++ c :: b) (solid : Text.isBlank c = false) :
    ∃ before after, ss = before ++ .code c :: after ∧ before.flatMap Segment.blanked = a ∧
      after.flatMap Segment.blanked = b := by
  induction ss generalizing a with
  | nil => cases a <;> cases whole
  | cons s ss ih =>
    have behind {more : List Char} (later : ss.flatMap Segment.blanked = more ++ c :: b) :
        ∃ before after, s :: ss = before ++ .code c :: after ∧
          before.flatMap Segment.blanked = s.blanked ++ more ∧
            after.flatMap Segment.blanked = b := by
      obtain ⟨before, after, rfl, front, back⟩ := ih later
      refine ⟨s :: before, after, rfl, ?_, back⟩
      rw [List.flatMap_cons, front]
    rw [List.flatMap_cons] at whole
    rcases List.append_eq_append_iff.1 whole with ⟨more, rfl, later⟩ | ⟨more, own, rest⟩
    · exact behind later
    · cases more with
      | nil =>
        have later := @behind [] rest.symm
        rwa [own, List.append_nil, List.append_nil] at later
      | cons d more =>
        obtain ⟨rfl, tail⟩ := List.cons.inj rest
        cases s with
        | code d =>
          obtain ⟨rfl, same⟩ := List.append_eq_singleton_iff.1 own.symm |>.resolve_right (by simp)
          obtain ⟨rfl, rfl⟩ := List.cons.inj same
          exact ⟨[], ss, rfl, rfl, tail.symm⟩
        | comment cs =>
          have inside : c ∈ cs.flatMap blanked := by
            change c ∈ Segment.blanked (.comment cs)
            rw [own]
            simp
          obtain ⟨d, -, spaced⟩ := List.mem_flatMap.1 inside
          rw [isBlank_of_mem_blanked spaced] at solid
          cases solid

/-! Places -/

theorem point_next (p : Place) (c : Char) :
    (p.next c).point = if c = '\n' then ⟨p.point.line + 1, 0⟩
      else ⟨p.point.line, p.point.column + c.utf8Size⟩ := by
  unfold Place.next
  split <;> rfl

theorem point_foldl_congr (cs : List Char) {p q : Place} (same : p.point = q.point) :
    (cs.foldl Place.next p).point = (cs.foldl Place.next q).point := by
  induction cs generalizing p q with
  | nil => exact same
  | cons c cs ih =>
    refine ih ?_
    rw [point_next, point_next, same]

theorem point_foldl_blanked (p : Place) (c : Char) :
    ((blanked c).foldl Place.next p).point = (p.next c).point := by
  have spaces (n : Nat) (p : Place) : ((List.replicate n ' ').foldl Place.next p).point =
      ⟨p.point.line, p.point.column + n⟩ := by
    induction n generalizing p with
    | zero => rfl
    | succ n ih =>
      have size : ' '.utf8Size = 1 := rfl
      rw [List.replicate_succ, List.foldl_cons, ih, point_next, if_neg (by decide), size,
        Nat.add_assoc, Nat.add_comm 1]
  unfold blanked
  split
  · rfl
  · next other => rw [spaces, point_next, if_neg other]

theorem point_foldl_flatMap_blanked (p : Place) (cs : List Char) :
    ((cs.flatMap blanked).foldl Place.next p).point = (cs.foldl Place.next p).point := by
  induction cs generalizing p with
  | nil => rfl
  | cons c cs ih =>
    rw [List.flatMap_cons, List.foldl_append, List.foldl_cons, ih]
    exact point_foldl_congr cs (point_foldl_blanked p c)

theorem point_behind_blanked (ss : List Segment) :
    (Place.behind (ss.flatMap Segment.blanked)).point =
      (Place.behind (ss.flatMap Segment.text)).point := by
  suffices ∀ p : Place, ((ss.flatMap Segment.blanked).foldl Place.next p).point =
      ((ss.flatMap Segment.text).foldl Place.next p).point from this .origin
  induction ss with
  | nil => exact fun _ => rfl
  | cons s ss ih =>
    intro p
    have first : (s.blanked.foldl Place.next p).point = (s.text.foldl Place.next p).point := by
      cases s with
      | code c => rfl
      | comment cs => exact point_foldl_flatMap_blanked p cs
    rw [List.flatMap_cons, List.flatMap_cons, List.foldl_append, List.foldl_append, ih]
    exact point_foldl_congr _ first

end CodeOutline.Analysis.Less
