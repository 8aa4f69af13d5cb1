import CodeOutline.Proofs.Syntax.Judging
import CodeOutline.Scaffold.Language

/-!
The lines of a new file. Every language numbers the lines in the order in which they stand, so
that sorting the edits by line changes nothing. Lines that a rule takes one by one, or group by
group, it takes as they stand in the file, with the empty lines between them.
-/

set_option autoImplicit false

namespace CodeOutline.Scaffold

open Syntax (Rule Grammar)
open Syntax.Grammar (list more)

theorem map_text_number (lines : List String) : (number lines).map (·.text) = lines := by
  apply List.ext_getElem
  · simp [number]
  · simp [number]

private theorem number_pairwise (lines : List String) :
    (number lines).Pairwise (fun a b => decide (a.line ≤ b.line) = true) := by
  rw [List.pairwise_iff_getElem]
  intro i j _ _ less
  simpa [number] using Nat.le_of_lt less

theorem render_number (lines : List String) :
    render (number lines) = String.join (lines.map (· ++ "\n")) := by
  rw [render, List.mergeSort_of_pairwise (number_pairwise lines)]
  have texts := congrArg (List.map (· ++ "\n")) (map_text_number lines)
  rw [List.map_map] at texts
  exact congrArg String.join texts

/-- The lines of a new file. -/
def Language.lines (l : Language) (target : String) (source : EntityToken) (kind : EntityKind)
    (mode : Mode) (options : Options) : List String :=
  (l.generate target source kind mode options).map (·.text)

theorem Language.render_generate (l : Language) (target : String) (source : EntityToken)
    (kind : EntityKind) (mode : Mode) (options : Options) :
    render (l.generate target source kind mode options) =
      String.join ((l.lines target source kind mode options).map (· ++ "\n")) := by
  have numbered : ∃ lines, l.generate target source kind mode options = number lines := by
    cases l with
    | php | java | script => exact ⟨_, rfl⟩
  obtain ⟨lines, whole⟩ := numbered
  rw [Language.lines, whole, map_text_number, render_number]

/-! The text of lines -/

/-- Lines behind what stands before them. -/
def below (lines : List String) : List Char := lines.flatMap (fun l => '\n' :: l.toList)

theorem toList_join (lines : List String) :
    '\n' :: (String.join (lines.map (· ++ "\n"))).toList = below lines ++ ['\n'] := by
  rw [String.toList_join]
  induction lines with
  | nil => rfl
  | cons l lines ih =>
    rw [below] at ih
    rw [below, List.flatMap_cons, List.append_assoc, ← ih]
    simp

/-- A line with an empty one behind it. -/
def block : Option String → List String
  | some line => [line, ""]
  | none => []

def implementsText : Option String → String
  | some interface => " implements " ++ interface
  | none => ""

def imported? (source : EntityToken) (separator : String) (mode : Mode) (space : Option String)
    (options : Options) : Option String :=
  if mode.hasBodies then sourceImport? source separator space options else none

theorem toList_list (ss : List String) :
    (", ".intercalate ss).toList = list (ss.map String.toList) := by
  rw [String.toList_intercalate]
  cases ss with
  | nil => rfl
  | cons s ss =>
    rw [List.map_cons, list, more]
    induction ss generalizing s with
    | nil => simp [List.intercalate]
    | cons t ss ih =>
      rw [List.map_cons, List.intercalate_cons_cons, ih, List.flatMap_cons]
      simp

/-! Members one below the other -/

def breaks : List (List Char) := [[], ['\n']]

theorem nil_mem_breaks : [] ∈ breaks := .head _

theorem line_mem_breaks : ['\n'] ∈ breaks := .tail _ (.head _)

section Parts

variable {σ : Type} {g : Grammar σ} {a : Rule σ}

theorem parts_lines {lines : List String} (each : ∀ l ∈ lines, g.IsPart a breaks ('\n' :: l.toList))
    {gap : List Char} (among : gap ∈ breaks) (filled : lines ≠ []) :
    g.Parts a breaks (gap ++ below lines) := by
  induction lines generalizing gap with
  | nil => exact absurd rfl filled
  | cons l lines ih =>
    rw [List.forall_mem_cons] at each
    have text : gap ++ below (l :: lines) = gap ++ ('\n' :: l.toList ++ ([] ++ below lines)) := by
      simp [below]
    rw [text]
    refine .cons among each.1 ?_
    cases lines with
    | nil => exact .nil
    | cons l' lines => exact ih each.2 nil_mem_breaks (by simp)

theorem parts_spaced {groups : List (List String)}
    (each : ∀ p ∈ groups, g.IsPart a breaks (below p)) {gap : List Char} (among : gap ∈ breaks)
    (filled : groups ≠ []) :
    g.Parts a breaks (gap ++ below (spaced groups)) := by
  induction groups generalizing gap with
  | nil => exact absurd rfl filled
  | cons p groups ih =>
    rw [List.forall_mem_cons] at each
    cases groups with
    | nil =>
      have text : gap ++ below (spaced [p]) = gap ++ (below p ++ []) := by simp [spaced]
      rw [text]
      exact .cons among each.1 .nil
    | cons p' groups =>
      have text : gap ++ below (spaced (p :: p' :: groups)) =
          gap ++ (below p ++ (['\n'] ++ below (spaced (p' :: groups)))) := by
        simp [spaced, below, List.intercalate]
      rw [text]
      exact .cons among each.1 (ih each.2 line_mem_breaks (by simp))

theorem parts_separate {above lines : List String}
    (first : above ≠ [] → g.Parts a breaks (below above))
    (others : lines ≠ [] → ∀ gap ∈ breaks, g.Parts a breaks (gap ++ below lines)) :
    g.Parts a breaks (below (separate above lines)) := by
  by_cases none : above = []
  · subst none
    by_cases nothing : lines = []
    · subst nothing
      exact .nil
    · exact others nothing [] nil_mem_breaks
  · by_cases nothing : lines = []
    · subst nothing
      simpa [separate] using first none
    · have text : below (separate above lines) = below above ++ (['\n'] ++ below lines) := by
        simp [separate, none, nothing, below]
      rw [text]
      exact (first none).append (others nothing ['\n'] line_mem_breaks)

end Parts

end CodeOutline.Scaffold
