import CodeOutline.Batch

/-!
What a batch knows before and after an outline, and the outlines that can be found for files that
are asked for at the same time: the known one, or the analysis under one of the paths. Files of
which none is spelled in two ways have one outline each.
-/

set_option autoImplicit false

namespace CodeOutline

theorem Path.same_iff {a b : RawText} : same a b = true ↔ components a = components b := beq_iff_eq

theorem Path.same_congr {a b : RawText} (alike : same a b = true) (path : RawText) :
    same path a = same path b := by
  rw [Bool.eq_iff_iff, same_iff, same_iff, same_iff.1 alike]

namespace Batch

section Known

variable {b : Batch} {fs : FileSystem} {path : RawText} {found : FileOutline}

theorem analyze_congr {other : Batch} (directory : b.directory = other.directory)
    (config : b.config = other.config) : b.analyze fs path = other.analyze fs path := by
  simp only [analyze, directory, config]

theorem outline_of_known (known : b.known? (b.absolute path) = some found) :
    b.outline fs path = (found, b) := by
  simp only [outline, known]

theorem outline_of_unknown (unknown : b.known? (b.absolute path) = none) :
    b.outline fs path = (b.analyze fs (b.absolute path),
      { b with known := (b.absolute path, b.analyze fs (b.absolute path)) :: b.known }) := by
  simp only [outline, unknown]

theorem known?_congr {one other : RawText} (alike : Path.same one other = true) :
    b.known? one = b.known? other := by
  simp only [known?, Path.same_congr alike]

theorem known?_cons (key path : RawText) (found : FileOutline) :
    { b with known := (key, found) :: b.known }.known? path =
      if Path.same key path then some found else b.known? path := by
  cases alike : Path.same key path with
  | true => simp [known?, alike]
  | false => simp [known?, alike]

theorem known?_outline (b : Batch) (fs : FileSystem) (path : RawText) :
    (b.outline fs path).2.known? (b.absolute path) = some (b.outline fs path).1 := by
  cases known : b.known? (b.absolute path) with
  | some found => rw [outline_of_known known, known]
  | none => rw [outline_of_unknown known, known?_cons, if_pos (Path.same_iff.2 rfl)]

end Known

/-- Two batches know the same outline of each path, or both of them none. -/
structure Alike (b other : Batch) : Prop where
  directory : b.directory = other.directory
  config : b.config = other.config
  known (path : RawText) : b.known? path = other.known? path

/-- No file has two of the absolute paths. -/
def SpelledOnce (b : Batch) (paths : List RawText) : Prop :=
  ∀ path ∈ paths, ∀ other ∈ paths, Path.same (b.absolute path) (b.absolute other) = true →
    b.absolute path = b.absolute other

def Possible (b : Batch) (fs : FileSystem) (paths : List RawText) (key : RawText)
    (found : FileOutline) : Prop :=
  b.known? key = some found ∨ b.known? key = none ∧ ∃ path ∈ paths,
    Path.same (b.absolute path) key = true ∧ found = b.analyze fs (b.absolute path)

section Possible

variable {b : Batch} {fs : FileSystem} {paths reordered : List RawText} {key : RawText}
  {found other : FileOutline}

theorem SpelledOnce.perm (once : b.SpelledOnce paths) (perm : reordered.Perm paths) :
    b.SpelledOnce reordered := by
  intro path member other member'
  exact once path (perm.mem_iff.1 member) other (perm.mem_iff.1 member')

theorem Possible.congr {key' : RawText} (possible : b.Possible fs paths key found)
    (alike : Path.same key key' = true) : b.Possible fs paths key' found := by
  simpa only [Possible, known?_congr alike, Path.same_congr alike] using possible

theorem Possible.perm (possible : b.Possible fs reordered key found)
    (perm : reordered.Perm paths) : b.Possible fs paths key found := by
  simpa only [Possible, perm.mem_iff] using possible

theorem Possible.eq_of_known (possible : b.Possible fs paths key found)
    (known : b.known? key = some other) : found = other := by
  rcases possible with known' | ⟨unknown, -⟩
  · exact Option.some.inj (known'.symm.trans known)
  · cases known.symm.trans unknown

theorem Possible.unique (once : b.SpelledOnce paths) (one : b.Possible fs paths key found)
    (two : b.Possible fs paths key other) : found = other := by
  rcases one with known | ⟨unknown, path, member, alike, analyzed⟩ <;>
    rcases two with known' | ⟨unknown', path', member', alike', analyzed'⟩
  · exact Option.some.inj (known.symm.trans known')
  · cases known.symm.trans unknown'
  · cases known'.symm.trans unknown
  · rw [Path.same_iff] at alike alike'
    rw [analyzed, analyzed',
      once path member path' member' (Path.same_iff.2 (alike.trans alike'.symm))]

theorem possible_outline {path : RawText} (member : path ∈ paths) :
    b.Possible fs paths (b.absolute path) (b.outline fs path).1 := by
  cases known : b.known? (b.absolute path) with
  | some found =>
    rw [outline_of_known known]
    exact .inl known
  | none =>
    rw [outline_of_unknown known]
    exact .inr ⟨known, path, member, Path.same_iff.2 rfl, rfl⟩

end Possible

end Batch

end CodeOutline
