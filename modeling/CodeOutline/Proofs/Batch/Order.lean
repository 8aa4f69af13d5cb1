import CodeOutline.Proofs.Batch.Schedule
import CodeOutline.Proofs.FileSystem.Relative
import Mathlib.Data.List.Nodup
import Mathlib.Data.String.Basic

/-!
The order of the files has no part in their outlines. Whatever a batch has come to know before,
different files whose names are text are shown under different paths, so that there is only one
way to sort what was found. Names that are no text may be shown alike; outlines under one path
stay in the order in which their files were given.
-/

set_option autoImplicit false

namespace CodeOutline.Batch

/-- The states that a batch can come to together with those who work with it. Files may change
before each move. -/
inductive Reachable : Crew → Prop
  | start (directory : RawText) (config : Config) : Reachable ⟨{ directory, config }, []⟩
  | ask {crew : Crew} (paths : List RawText) (reached : Reachable crew) :
      Reachable ⟨crew.batch, crew.workers ++ paths.map (fun path => ⟨path, .waiting⟩)⟩
  | move {crew : Crew} (fs : FileSystem) (i : Nat) (reached : Reachable crew) :
      Reachable (crew.move fs i)
  | leave {crew : Crew} (reached : Reachable crew) : Reachable ⟨crew.batch, []⟩
  | forget {crew : Crew} (reached : Reachable crew) : Reachable ⟨crew.batch.forget, crew.workers⟩

theorem Reachable.run {crew : Crew} (reachable : Reachable crew) (fs : FileSystem)
    (schedule : List Nat) : Reachable (crew.run fs schedule) := by
  induction schedule generalizing crew with
  | nil => exact reachable
  | cons i rest ih => exact ih (reachable.move fs i)

/-- How a file is named in an outline. -/
def shown (base path : RawText) : String :=
  (Path.relativeTo base (Path.joinRaw base path)).lossy

/-- The outline of a file, kept under an absolute path and named as seen from the directory. -/
def Names (base : RawText) (entry : RawText × FileOutline) : Prop :=
  ∃ path, entry.1 = Path.joinRaw base path ∧ entry.2.path = shown base path

structure Named (base : RawText) (crew : Crew) : Prop where
  directory : crew.batch.directory = base
  known : ∀ entry ∈ crew.batch.known, Names base entry
  made : ∀ w ∈ crew.workers, ∀ found, w.stage = .made found → found.path = shown base w.path

section Names

variable {b : Batch} {fs : FileSystem} {base : RawText}

theorem analyze_path (path : RawText) :
    (b.analyze fs path).path = (Path.relativeTo b.directory path).lossy := by
  unfold analyze
  repeat' split
  all_goals rfl

theorem Worker.move_named (fs : FileSystem) {w : Worker}
    (known : ∀ entry ∈ b.known, Names b.directory entry)
    (made : ∀ found, w.stage = .made found → found.path = shown b.directory w.path) :
    (w.move fs b).2.directory = b.directory ∧
      (∀ entry ∈ (w.move fs b).2.known, Names b.directory entry) ∧
      ∀ found, (w.move fs b).1.stage = .made found →
        found.path = shown b.directory (w.move fs b).1.path := by
  obtain ⟨path, stage⟩ := w
  cases stage with
  | waiting =>
    cases seen : b.known? (b.absolute path) with
    | some found => rw [move_of_known seen]; exact ⟨rfl, known, nofun⟩
    | none => rw [move_of_unknown seen]; exact ⟨rfl, known, nofun⟩
  | unknown =>
    refine ⟨rfl, known, ?_⟩
    intro found stage
    rw [← Stage.made.inj stage]
    exact analyze_path _
  | made found =>
    refine ⟨rfl, ?_, nofun⟩
    intro entry member
    rcases List.mem_cons.1 member with rfl | before
    · exact ⟨path, rfl, made found rfl⟩
    · exact known entry before
  | done found => exact ⟨rfl, known, nofun⟩

theorem Named.move {crew : Crew} (named : Named base crew) (i : Nat) :
    Named base (crew.move fs i) := by
  rcases crew.move_cases fs i with same | ⟨before, w, after, split, moved⟩
  · rwa [same]
  · obtain ⟨rfl, known, made⟩ := named
    rw [split] at made
    obtain ⟨directory, known, next⟩ := Worker.move_named fs known (made w (by simp))
    rw [moved]
    exact ⟨directory, known, Crew.forall_replace made next⟩

theorem Reachable.named {crew : Crew} (reachable : Reachable crew) :
    ∃ base, Named base crew := by
  induction reachable with
  | start directory config => exact ⟨directory, rfl, nofun, nofun⟩
  | ask paths reached ih =>
    obtain ⟨base, named⟩ := ih
    refine ⟨base, named.directory, named.known, ?_⟩
    intro w member found stage
    rcases List.mem_append.1 member with there | new
    · exact named.made w there found stage
    · obtain ⟨path, -, rfl⟩ := List.mem_map.1 new
      cases stage
  | move fs i reached ih =>
    obtain ⟨base, named⟩ := ih
    exact ⟨base, named.move i⟩
  | leave reached ih =>
    obtain ⟨base, named⟩ := ih
    exact ⟨base, named.directory, named.known, nofun⟩
  | forget reached ih =>
    obtain ⟨base, named⟩ := ih
    exact ⟨base, named.directory, nofun, named.made⟩

theorem Reachable.names {crew : Crew} (reachable : Reachable crew) :
    ∀ entry ∈ crew.batch.known, Names crew.batch.directory entry := by
  obtain ⟨base, named⟩ := reachable.named
  rw [named.directory]
  exact named.known

theorem outline_path (fs : FileSystem) (known : ∀ entry ∈ b.known, Names b.directory entry)
    (path : RawText) :
    ∃ other, Path.same (b.absolute other) (b.absolute path) = true ∧
      (b.outline fs path).1.path = shown b.directory other := by
  cases seen : b.known? (b.absolute path) with
  | some found =>
    obtain ⟨entry, first, rfl⟩ := Option.map_eq_some_iff.1 seen
    obtain ⟨other, key, named⟩ := known entry (List.mem_of_find?_eq_some first)
    have alike := List.find?_some first
    change Path.same entry.1 (b.absolute path) = true at alike
    rw [key] at alike
    exact ⟨other, alike, by rw [outline_of_known seen, named]⟩
  | none => exact ⟨path, Path.same_iff.2 rfl, by rw [outline_of_unknown seen]; exact analyze_path _⟩

/-- All of the absolute path is text. -/
def InText (b : Batch) (path : RawText) : Prop :=
  ∀ c ∈ Path.components (b.absolute path), c.piece.IsText

theorem components_eq_of_path_eq (known : ∀ entry ∈ b.known, Names b.directory entry)
    {path other : RawText} (text : b.InText path) (text' : b.InText other)
    (alike : (b.outline fs path).1.path = (b.outline fs other).1.path) :
    Path.components (b.absolute path) = Path.components (b.absolute other) := by
  obtain ⟨one, sameOne, pathOne⟩ := outline_path fs known path
  obtain ⟨two, sameTwo, pathTwo⟩ := outline_path fs known other
  rw [Path.same_iff] at sameOne sameTwo
  rw [InText, ← sameOne] at text
  rw [InText, ← sameTwo] at text'
  rw [← sameOne, ← sameTwo]
  apply Path.components_eq_of_relativeTo_eq
  exact (Path.isText_relativeTo text _).eq_of_lossy (Path.isText_relativeTo text' _)
    (pathOne.symm.trans (alike.trans pathTwo))

end Names

/-! Sorting -/

section Sorting

variable {found other : List FileOutline}

private theorem le_trans_path (x y z : FileOutline) : decide (x.path ≤ y.path) = true →
    decide (y.path ≤ z.path) = true → decide (x.path ≤ z.path) = true := by
  simpa only [decide_eq_true_eq] using String.le_trans

private theorem le_total_path (x y : FileOutline) :
    (decide (x.path ≤ y.path) || decide (y.path ≤ x.path)) = true := by
  simpa only [Bool.or_eq_true, decide_eq_true_eq] using String.le_total x.path y.path

theorem pairwise_sort_le (found : List FileOutline) :
    (found.mergeSort (fun x y => decide (x.path ≤ y.path))).Pairwise (fun x y => x.path ≤ y.path) :=
  (List.pairwise_mergeSort le_trans_path le_total_path found).imp of_decide_eq_true

theorem pairwise_sort (distinct : (found.map FileOutline.path).Nodup) :
    (found.mergeSort (fun x y => decide (x.path ≤ y.path))).Pairwise
      (fun x y => x.path < y.path) :=
  (pairwise_mergeSort_of_nodup le_trans_path le_total_path distinct).imp
    (fun both => lt_of_le_of_ne (of_decide_eq_true both.1) both.2)

theorem sort_eq_of_perm (perm : found.Perm other)
    (distinct : (other.map FileOutline.path).Nodup) :
    found.mergeSort (fun x y => decide (x.path ≤ y.path)) =
      other.mergeSort (fun x y => decide (x.path ≤ y.path)) := by
  have sorted := pairwise_sort ((perm.map FileOutline.path).nodup_iff.2 distinct)
  refine List.Perm.eq_of_pairwise ?_ sorted (pairwise_sort distinct) ?_
  · intro x y _ _ before after
    exact absurd after (String.lt_asymm before)
  · exact (List.mergeSort_perm found _).trans (perm.trans (List.mergeSort_perm other _).symm)

end Sorting

/-! Different files -/

/-- Paths of different files. -/
def Apart (b : Batch) (paths : List RawText) : Prop :=
  (paths.map (fun path => Path.components (b.absolute path))).Nodup

section Apart

variable {b : Batch} {fs : FileSystem} {paths reordered : List RawText}

theorem Apart.spelledOnce (apart : b.Apart paths) : b.SpelledOnce paths := by
  intro path member other member' alike
  rw [List.inj_on_of_nodup_map apart member member' (Path.same_iff.1 alike)]

theorem outline_paths_nodup (known : ∀ entry ∈ b.known, Names b.directory entry)
    (apart : b.Apart paths) (text : ∀ path ∈ paths, b.InText path) :
    ((paths.map (fun path => (b.outline fs path).1)).map FileOutline.path).Nodup := by
  rw [List.map_map]
  refine List.Nodup.map_on ?_ apart.of_map
  intro path member other member' alike
  exact List.inj_on_of_nodup_map apart member member'
    (components_eq_of_path_eq known (text path member) (text other member') alike)

theorem outlineAll_fst (once : b.SpelledOnce paths) :
    (b.outlineAll fs paths).1 = (paths.map (fun path => (b.outline fs path).1)).mergeSort
      (fun x y => decide (x.path ≤ y.path)) := by
  rw [outlineAll_eq_inTurn, Crew.outlines,
    (Working.start.run _).found_eq (isDone_inTurn b fs paths) once]

theorem outlineAll_of_pairwise (once : b.SpelledOnce paths)
    (ascends : (paths.map (fun path => (b.outline fs path).1)).Pairwise
      (fun x y => decide (x.path ≤ y.path) = true)) :
    (b.outlineAll fs paths).1 = paths.map (fun path => (b.outline fs path).1) := by
  rw [outlineAll_fst once, List.mergeSort_of_pairwise ascends]

theorem ends_alike {crew : Crew} (working : Working b fs reordered crew)
    (done : crew.isDone = true) (once : b.SpelledOnce reordered) (perm : reordered.Perm paths) :
    crew.outlines = (b.outlineAll fs reordered).1 ∧ Alike crew.batch (b.outlineAll fs paths).2 := by
  constructor
  · rw [outlineAll_fst once, Crew.outlines, working.found_eq done once]
  · rw [outlineAll_eq_inTurn]
    exact working.alike (Working.start.run _) perm once done (isDone_inTurn b fs paths)

end Apart

/-- Different files that are outlined all at once: the order in which their workers move makes no
difference to what is found, and the order in which they are asked for makes none to what is known
afterwards and to the outlines but for their order. They ascend by their paths as text, those with
one path in the order in which they were asked for. Files whose names are text have different
paths, so that their outlines come in one order. -/
theorem outlineAll_unordered {crew : Crew} (reachable : Reachable crew) (fs : FileSystem)
    {paths reordered : List RawText} (apart : crew.batch.Apart paths)
    (perm : reordered.Perm paths) :
    let b := crew.batch
    let all := b.outlineAll fs paths
    let again := b.outlineAll fs reordered
    (∀ schedule, let ended := (Crew.start b reordered).run fs schedule
      ended.isDone = true → ended.outlines = again.1 ∧ Alike ended.batch all.2) ∧
    (∀ schedule, (∀ i < reordered.length, 3 ≤ schedule.count i) →
      ((Crew.start b reordered).run fs schedule).isDone = true) ∧
    again.1.Perm all.1 ∧ Alike again.2 all.2 ∧
    all.1 = (paths.map (fun path => (b.outline fs path).1)).mergeSort
      (fun x y => decide (x.path ≤ y.path)) ∧
    all.1.Pairwise (fun x y => x.path ≤ y.path) ∧
    ((all.1.map FileOutline.path).Nodup →
      again.1 = all.1 ∧ all.1.Pairwise (fun x y => x.path < y.path)) ∧
    ((∀ path ∈ paths, b.InText path) → (all.1.map FileOutline.path).Nodup) := by
  intro b all again
  have known : ∀ entry ∈ b.known, Names b.directory entry := reachable.names
  have once : b.SpelledOnce paths := apart.spelledOnce
  have sorted : all.1 = _ := outlineAll_fst once
  have sorted' : again.1 = _ := outlineAll_fst (once.perm perm)
  have each := perm.map (fun path => (b.outline fs path).1)
  have same : again.1.Perm all.1 := by
    rw [sorted, sorted']
    exact (List.mergeSort_perm ..).trans (each.trans (List.mergeSort_perm ..).symm)
  have ends {schedule : List Nat}
      (done : ((Crew.start b reordered).run fs schedule).isDone = true) :=
    ends_alike (Working.start.run schedule) done (once.perm perm) perm
  refine ⟨fun schedule => ends, fun schedule => isDone_run, same, ?_, sorted, ?_, ?_, ?_⟩
  · have inTurn := (ends (isDone_inTurn b fs reordered)).2
    show Alike (b.outlineAll fs reordered).2 all.2
    rwa [outlineAll_eq_inTurn]
  · rw [sorted]
    exact pairwise_sort_le _
  · intro distinct
    rw [sorted] at distinct ⊢
    rw [((List.mergeSort_perm ..).map FileOutline.path).nodup_iff] at distinct
    rw [sorted']
    exact ⟨sort_eq_of_perm each distinct, pairwise_sort distinct⟩
  · intro text
    rw [sorted, ((List.mergeSort_perm ..).map FileOutline.path).nodup_iff]
    exact outline_paths_nodup known apart text

/-- Two files of which one is known already, in turns. -/
theorem outlineAll_unordered_in_turns :
    let files : FileSystem := {
      entries := [(["ws"], .directory), (["ws", "notes.txt"], .file (.text "hello")),
        (["ws", "site.css"], .file (.text ".a { color: red; }\n"))] }
    let crew := (Crew.start { directory := "/ws", config := {} } ["site.css"]).run files [0, 0, 0]
    let b := crew.batch
    let paths : List RawText := ["./site.css", "/ws/notes.txt"]
    let reordered : List RawText := ["/ws/notes.txt", "./site.css"]
    Reachable crew ∧ b.Apart paths ∧ reordered.Perm paths ∧ (∀ path ∈ paths, b.InText path) ∧
      ((Crew.start b reordered).run files [0, 1, 0, 1, 0, 1]).outlines =
        (b.outlineAll files paths).1 := by
  intro files crew b paths reordered
  have reachable : Reachable crew :=
    ((Reachable.start "/ws" {}).ask ["site.css"]).run files [0, 0, 0]
  have apart : b.Apart paths := by
    unfold Apart
    decide +kernel
  have perm : reordered.Perm paths := by decide
  have text : ∀ path ∈ paths, b.InText path := by
    unfold InText
    decide +kernel
  obtain ⟨inTurns, complete, -, -, -, -, distinct, shown⟩ :=
    outlineAll_unordered reachable files apart perm
  have ended := (inTurns _ (complete [0, 1, 0, 1, 0, 1] (by decide))).1
  exact ⟨reachable, apart, perm, text, ended.trans (distinct (shown text)).1⟩

/-- Two files whose names are shown alike, in two orders. And the order of the paths as text, which
is not that of their components. -/
theorem outlineAll_raw_names :
    let name (b : UInt8) : RawText := ⟨[0x61, b, 0x2E, 0x63, 0x73, 0x73]⟩
    let files : FileSystem := {
      entries := [(["ws"], .directory), (["ws", name 0xFE], .file (.bytes [0xFF]))] }
    let b : Batch := { directory := "/ws", config := {} }
    Reachable ⟨b, []⟩ ∧ b.Apart [name 0xFE, name 0xFF] ∧
      (b.outlineAll files [name 0xFE, name 0xFF]).1.map FileOutline.fault ≠
        (b.outlineAll files [name 0xFF, name 0xFE]).1.map FileOutline.fault ∧
      Path.le "a/b.py" "a-x.py" = true ∧
      (b.outlineAll files ["a-x.py", "a/b.py"]).1.map FileOutline.path = ["a-x.py", "a/b.py"] := by
  intro name files b
  have apart : b.Apart [name 0xFE, name 0xFF] := by
    unfold Apart
    decide +kernel
  have one : b.SpelledOnce [name 0xFE, name 0xFF] := apart.spelledOnce
  have other : b.SpelledOnce [name 0xFF, name 0xFE] := one.perm (by decide)
  have texts : b.SpelledOnce ["a-x.py", "a/b.py"] := by
    unfold SpelledOnce
    decide +kernel
  refine ⟨.start "/ws" {}, apart, ?_, by decide +kernel, ?_⟩
  · rw [outlineAll_of_pairwise one (by decide +kernel),
      outlineAll_of_pairwise other (by decide +kernel)]
    decide +kernel
  · rw [outlineAll_of_pairwise texts (by decide +kernel)]
    decide +kernel

end CodeOutline.Batch
