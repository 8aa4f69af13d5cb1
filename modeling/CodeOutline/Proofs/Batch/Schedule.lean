import CodeOutline.Proofs.Batch.Known
import CodeOutline.Proofs.Related

/-!
Outlines of several files at once. Each file has a worker that does what `outline` does, in
three moves: it looks up what is known, it analyzes the file, it adds what it found to what is
known. A schedule says whose move comes next; in turn the workers do what `outlineAll` does. What a
worker finds is known before, or made under the path of one of the workers, and the last one who
adds an outline of a file leaves it there.
-/

set_option autoImplicit false

namespace CodeOutline.Batch

inductive Stage
  | waiting
  /-- Nothing was known of the file. -/
  | unknown
  /-- The file was analyzed; others do not know of it yet. -/
  | made (found : FileOutline)
  | done (found : FileOutline)

structure Worker where
  path : RawText
  stage : Stage := .waiting

/-- A batch and those who work with it at the same time. -/
structure Crew where
  batch : Batch
  workers : List Worker

namespace Worker

/-- The next move of a worker, and the batch behind it. -/
def move (fs : FileSystem) (b : Batch) (w : Worker) : Worker × Batch :=
  match w.stage with
  | .waiting =>
    match b.known? (b.absolute w.path) with
    | some found => ({ w with stage := .done found }, b)
    | none => ({ w with stage := .unknown }, b)
  | .unknown => ({ w with stage := .made (b.analyze fs (b.absolute w.path)) }, b)
  | .made found =>
    ({ w with stage := .done found }, { b with known := (b.absolute w.path, found) :: b.known })
  | .done _ => (w, b)

def found? (w : Worker) : Option FileOutline :=
  match w.stage with
  | .done found => some found
  | _ => none

/-- The moves that are left at most. -/
def left (w : Worker) : Nat :=
  match w.stage with
  | .waiting => 3
  | .unknown => 2
  | .made _ => 1
  | .done _ => 0

end Worker

namespace Crew

/-- A worker for each file. -/
def start (b : Batch) (paths : List RawText) : Crew :=
  ⟨b, paths.map (fun path => ⟨path, .waiting⟩)⟩

/-- The moves that are left at most to the worker with a number. -/
def left (crew : Crew) (i : Nat) : Nat := (crew.workers[i]?.map Worker.left).getD 0

/-- The crew after a move of the worker with a number. -/
def move (fs : FileSystem) (crew : Crew) (i : Nat) : Crew :=
  match crew.workers[i]? with
  | none => crew
  | some w => ⟨(w.move fs crew.batch).2, crew.workers.set i (w.move fs crew.batch).1⟩

/-- The crew after the moves of a schedule. -/
def run (fs : FileSystem) (crew : Crew) (schedule : List Nat) : Crew :=
  schedule.foldl (move fs) crew

def isDone (crew : Crew) : Bool := crew.workers.all (fun w => w.found?.isSome)

/-- What was found, in the order in which the files were given. -/
def found (crew : Crew) : List FileOutline := crew.workers.filterMap Worker.found?

/-- The same in the order of the paths as text. -/
def outlines (crew : Crew) : List FileOutline :=
  crew.found.mergeSort (fun x y => decide (x.path ≤ y.path))

def inTurn (count : Nat) : List Nat := (List.range count).flatMap (List.replicate 3)

end Crew

section Moves

variable {b : Batch} {fs : FileSystem}

/-! One after the other -/

theorem Crew.run_undisturbed (fs : FileSystem) (b : Batch) (before after : List Worker)
    (path : RawText) :
    Crew.run fs ⟨b, before ++ ⟨path, .waiting⟩ :: after⟩ (List.replicate 3 before.length) =
      ⟨(b.outline fs path).2, before ++ ⟨path, .done (b.outline fs path).1⟩ :: after⟩ := by
  cases known : b.known? (b.absolute path) with
  | some found =>
    rw [outline_of_known known]
    simp [run, List.replicate, move, Worker.move, known]
  | none =>
    rw [outline_of_unknown known]
    simp [run, List.replicate, move, Worker.move, known]

private theorem Crew.run_range' (fs : FileSystem) (b : Batch) (before : List Worker)
    (paths : List RawText) :
    Crew.run fs ⟨b, before ++ paths.map (fun path => ⟨path, .waiting⟩)⟩
        ((List.range' before.length paths.length).flatMap (List.replicate 3)) =
      ⟨(outlineEach fs b paths).2, before ++ List.zipWith (fun path found => ⟨path, .done found⟩)
        paths (outlineEach fs b paths).1⟩ := by
  induction paths generalizing b before with
  | nil => rfl
  | cons path rest ih =>
    have next := ih (b.outline fs path).2 (before ++ [⟨path, .done (b.outline fs path).1⟩])
    rw [List.length_append, List.length_singleton, List.append_assoc] at next
    have first := Crew.run_undisturbed fs b before
      (rest.map (fun path => ⟨path, .waiting⟩)) path
    rw [Crew.run] at first next
    rw [List.length_cons, List.range'_succ, List.flatMap_cons, Crew.run, List.foldl_append,
      List.map_cons, first]
    refine next.trans ?_
    rw [List.append_assoc]
    rfl

theorem length_outlineEach (fs : FileSystem) (b : Batch) (paths : List RawText) :
    (outlineEach fs b paths).1.length = paths.length := by
  induction paths generalizing b with
  | nil => rfl
  | cons path rest ih => exact congrArg (· + 1) (ih (b.outline fs path).2)

private theorem filterMap_found?_zipWith {paths : List RawText} {found : List FileOutline}
    (each : found.length = paths.length) :
    (List.zipWith (fun path found => ⟨path, .done found⟩) paths found).filterMap Worker.found? =
      found := by
  induction found generalizing paths with
  | nil => simp
  | cons first found ih =>
    cases paths with
    | nil => cases each
    | cons path paths =>
      exact congrArg (first :: ·) (ih (Nat.succ.inj each))

theorem outlineAll_eq_inTurn (fs : FileSystem) (b : Batch) (paths : List RawText) :
    let crew := (Crew.start b paths).run fs (Crew.inTurn paths.length)
    b.outlineAll fs paths = (crew.outlines, crew.batch) := by
  have ended := Crew.run_range' fs b [] paths
  rw [List.length_nil, ← List.range_eq_range'] at ended
  intro crew
  have whole : crew = _ := ended
  rw [whole, Crew.outlines, Crew.found, List.nil_append,
    filterMap_found?_zipWith (length_outlineEach fs b paths)]
  rfl

theorem count_inTurn {count i : Nat} (inside : i < count) : 3 ≤ (Crew.inTurn count).count i := by
  rw [← List.replicate_sublist_iff, Crew.inTurn, List.flatMap_def]
  exact List.sublist_flatten_of_mem (List.mem_map_of_mem (List.mem_range.2 inside))

/-! Moves in any order -/

theorem Crew.move_cases (fs : FileSystem) (crew : Crew) (i : Nat) :
    crew.move fs i = crew ∨ ∃ before w after, crew.workers = before ++ w :: after ∧
      crew.move fs i =
        ⟨(w.move fs crew.batch).2, before ++ (w.move fs crew.batch).1 :: after⟩ := by
  cases there : crew.workers[i]? with
  | none => exact .inl (by rw [Crew.move, there])
  | some w =>
    obtain ⟨inside, rfl⟩ := List.getElem?_eq_some_iff.1 there
    have cut : ∃ before after, crew.workers = before ++ crew.workers[i] :: after ∧
        before.length = i ∧ crew.workers.set i (crew.workers[i].move fs crew.batch).1 =
          before ++ (crew.workers[i].move fs crew.batch).1 :: after :=
      List.exists_of_set inside
    obtain ⟨before, after, split, -, changed⟩ := cut
    refine .inr ⟨before, _, after, split, ?_⟩
    rw [← changed, Crew.move, there]

theorem Crew.forall_replace {P : Worker → Prop} {before after : List Worker} {w next : Worker}
    (all : ∀ v ∈ before ++ w :: after, P v) (moved : P next) :
    ∀ v ∈ before ++ next :: after, P v := by
  rw [List.forall_mem_append, List.forall_mem_cons] at all ⊢
  exact ⟨all.1, moved, all.2.2⟩

theorem Crew.exists_replace {P : Worker → Prop} {before after : List Worker} {w next : Worker}
    (some_ : ∃ v ∈ before ++ w :: after, P v) (moved : P w → P next) :
    ∃ v ∈ before ++ next :: after, P v := by
  obtain ⟨v, member, shows⟩ := some_
  rcases List.mem_append.1 member with there | there
  · exact ⟨v, List.mem_append_left _ there, shows⟩
  rcases List.mem_cons.1 there with rfl | there
  · exact ⟨next, by simp, moved shows⟩
  · exact ⟨v, List.mem_append_right _ (List.mem_cons_of_mem _ there), shows⟩

namespace Worker

theorem move_of_known {path : RawText} {found : FileOutline}
    (known : b.known? (b.absolute path) = some found) :
    move fs b ⟨path, .waiting⟩ = (⟨path, .done found⟩, b) := by
  simp only [move, known]

theorem move_of_unknown {path : RawText} (unknown : b.known? (b.absolute path) = none) :
    move fs b ⟨path, .waiting⟩ = (⟨path, .unknown⟩, b) := by
  simp only [move, unknown]

/-- What a worker has who began with one batch, as far as the work has come, while others have
made another one of it. -/
def Holds (b : Batch) (fs : FileSystem) (paths : List RawText) (now : Batch) (w : Worker) :
    Prop :=
  match w.stage with
  | .waiting => True
  | .unknown => b.known? (b.absolute w.path) = none
  | .made found =>
    b.known? (b.absolute w.path) = none ∧ found = b.analyze fs (b.absolute w.path)
  | .done found =>
    b.Possible fs paths (b.absolute w.path) found ∧
      (now.known? (b.absolute w.path)).isSome = true

end Worker

/-- A batch that others have worked with. It has forgotten nothing, and learnt nothing but what
can be found for one of the paths. -/
structure Grown (b : Batch) (fs : FileSystem) (paths : List RawText) (now : Batch) : Prop where
  directory : now.directory = b.directory
  config : now.config = b.config
  kept {key : RawText} {found : FileOutline} (known : b.known? key = some found) :
    now.known? key = some found
  possible {key : RawText} {found : FileOutline} (known : now.known? key = some found) :
    b.Possible fs paths key found

structure Working (b : Batch) (fs : FileSystem) (paths : List RawText) (crew : Crew) : Prop
    extends Grown b fs paths crew.batch where
  named : crew.workers.map Worker.path = paths
  holds : ∀ w ∈ crew.workers, w.Holds b fs paths crew.batch
  given {key : RawText} {found : FileOutline} (known : crew.batch.known? key = some found) :
    b.known? key = some found ∨ ∃ w ∈ crew.workers,
      Path.same (b.absolute w.path) key = true ∧ w.found? = some found

namespace Grown

variable {paths : List RawText} {now : Batch} {path : RawText} {found : FileOutline}

theorem absolute_eq (grown : Grown b fs paths now) (path : RawText) :
    now.absolute path = b.absolute path := by
  rw [absolute, absolute, grown.directory]

theorem unknown (grown : Grown b fs paths now) {key : RawText} (unknown : now.known? key = none) :
    b.known? key = none := by
  cases known : b.known? key with
  | none => rfl
  | some found => cases (grown.kept known).symm.trans unknown

theorem learn (grown : Grown b fs paths now)
    (possible : b.Possible fs paths (b.absolute path) found)
    (unknown : b.known? (b.absolute path) = none) :
    Grown b fs paths { now with known := (b.absolute path, found) :: now.known } where
  directory := grown.directory
  config := grown.config
  kept {key found'} known := by
    have other : ¬Path.same (b.absolute path) key = true := by
      intro alike
      rw [known?_congr alike, known] at unknown
      cases unknown
    rw [known?_cons, if_neg other, grown.kept known]
  possible {key found'} known := by
    rw [known?_cons] at known
    split at known
    · next alike => exact Option.some.inj known ▸ possible.congr alike
    · exact grown.possible known

theorem holds_learn (found : FileOutline) {w : Worker} (holds : w.Holds b fs paths now) :
    w.Holds b fs paths { now with known := (b.absolute path, found) :: now.known } := by
  obtain ⟨other, stage⟩ := w
  cases stage with
  | waiting | unknown | made => exact holds
  | done held =>
    refine ⟨holds.1, ?_⟩
    rw [known?_cons]
    split
    · rfl
    · exact holds.2

end Grown

/-- What one move of a worker keeps, and what it adds to what is known. -/
structure Worker.Moves (b : Batch) (fs : FileSystem) (paths : List RawText) (now : Batch)
    (w next : Worker) (after : Batch) : Prop where
  grown : Grown b fs paths after
  path : next.path = w.path
  holds : next.Holds b fs paths after
  others (v : Worker) (holds : v.Holds b fs paths now) : v.Holds b fs paths after
  found (outline : FileOutline) (has : w.found? = some outline) : next.found? = some outline
  known (key : RawText) (outline : FileOutline) (there : after.known? key = some outline) :
    now.known? key = some outline ∨
      Path.same (b.absolute w.path) key = true ∧ next.found? = some outline

theorem Worker.moves {paths : List RawText} {now : Batch} {w : Worker}
    (grown : Grown b fs paths now) (member : w.path ∈ paths) (holds : w.Holds b fs paths now) :
    w.Moves b fs paths now (w.move fs now).1 (w.move fs now).2 := by
  obtain ⟨path, stage⟩ := w
  have here := grown.absolute_eq path
  cases stage with
  | waiting =>
    cases seen : now.known? (now.absolute path) with
    | some found =>
      rw [move_of_known seen]
      rw [here] at seen
      exact ⟨grown, rfl, ⟨grown.possible seen, Option.isSome_of_eq_some seen⟩, fun _ => id, nofun,
        fun _ _ => .inl⟩
    | none =>
      rw [move_of_unknown seen]
      rw [here] at seen
      exact ⟨grown, rfl, grown.unknown seen, fun _ => id, nofun, fun _ _ => .inl⟩
  | unknown =>
    refine ⟨grown, rfl, ⟨holds, ?_⟩, fun _ => id, nofun, fun _ _ => .inl⟩
    show now.analyze fs (now.absolute path) = _
    rw [here]
    exact analyze_congr grown.directory grown.config
  | made found =>
    obtain ⟨unknown, analyzed⟩ := holds
    have possible : b.Possible fs paths (b.absolute path) found :=
      .inr ⟨unknown, path, member, Path.same_iff.2 rfl, analyzed⟩
    simp only [move, here]
    refine ⟨grown.learn possible unknown, rfl, ⟨possible, ?_⟩, ?_, nofun, ?_⟩
    · rw [known?_cons, if_pos (Path.same_iff.2 rfl)]
      rfl
    · exact fun v theirs => Grown.holds_learn found theirs
    · intro key found' known
      rw [known?_cons] at known
      split at known
      · next alike => exact .inr ⟨alike, known⟩
      · exact .inl known
  | done found => exact ⟨grown, rfl, holds, fun _ => id, fun _ => id, fun _ _ => .inl⟩

namespace Working

variable {paths reordered : List RawText} {crew crew' : Crew}

theorem start : Working b fs paths (Crew.start b paths) where
  directory := rfl
  config := rfl
  kept := id
  possible := .inl
  named := by
    rw [Crew.start, List.map_map]
    exact List.map_id _
  holds := by simp [Crew.start, Worker.Holds]
  given := .inl

theorem move (working : Working b fs paths crew) (i : Nat) :
    Working b fs paths (crew.move fs i) := by
  rcases crew.move_cases fs i with same | ⟨before, w, after, split, moved⟩
  · rwa [same]
  obtain ⟨grown, named, holds, given⟩ := working
  rw [split] at named holds given
  have mine : w ∈ before ++ w :: after := by simp
  have member : w.path ∈ paths := named ▸ List.mem_map_of_mem mine
  have moves := w.moves grown member (holds w mine)
  have path := moves.path
  rw [moved]
  refine ⟨moves.grown, ?_, ?_, ?_⟩
  · simpa [path] using named
  · exact Crew.forall_replace (fun v member => moves.others v (holds v member)) moves.holds
  · intro key found known
    rcases moves.known key found known with before | ⟨alike, mine⟩
    · refine (given before).imp_right (fun giver => Crew.exists_replace giver ?_)
      exact fun theirs => ⟨path.symm ▸ theirs.1, moves.found found theirs.2⟩
    · exact .inr ⟨_, by simp, path.symm ▸ alike, mine⟩

theorem run (working : Working b fs paths crew) (schedule : List Nat) :
    Working b fs paths (crew.run fs schedule) := by
  induction schedule generalizing crew with
  | nil => exact working
  | cons i rest ih => exact ih (working.move i)

theorem ended (working : Working b fs paths crew) (done : crew.isDone = true) {w : Worker}
    (member : w ∈ crew.workers) :
    ∃ found, w.found? = some found ∧ b.Possible fs paths (b.absolute w.path) found ∧
      ∃ known, crew.batch.known? (b.absolute w.path) = some known := by
  have found := List.all_eq_true.1 done w member
  have holds := working.holds w member
  obtain ⟨path, stage⟩ := w
  cases stage with
  | waiting | unknown | made => cases found
  | done outline => exact ⟨outline, rfl, holds.1, Option.isSome_iff_exists.1 holds.2⟩

theorem exists_worker (working : Working b fs paths crew) {path : RawText} (member : path ∈ paths) :
    ∃ w ∈ crew.workers, w.path = path := by
  rw [← working.named] at member
  exact List.mem_map.1 member

theorem known_of_mem (working : Working b fs paths crew) (done : crew.isDone = true)
    {path : RawText} (member : path ∈ paths) :
    ∃ found, crew.batch.known? (b.absolute path) = some found := by
  obtain ⟨w, worker, rfl⟩ := working.exists_worker member
  obtain ⟨-, -, -, known⟩ := working.ended done worker
  exact known

theorem exists_giver (working : Working b fs paths crew) (done : crew.isDone = true)
    {path : RawText} (member : path ∈ paths) :
    ∃ w ∈ crew.workers, ∃ found, w.found? = some found ∧
      Path.same (b.absolute w.path) (b.absolute path) = true ∧
      crew.batch.known? (b.absolute path) = some found := by
  obtain ⟨w, worker, rfl⟩ := working.exists_worker member
  obtain ⟨found, has, possible, known, learnt⟩ := working.ended done worker
  rcases working.given learnt with before | ⟨giver, member', alike, has'⟩
  · obtain rfl := possible.eq_of_known before
    exact ⟨w, worker, found, has, Path.same_iff.2 rfl, learnt⟩
  · exact ⟨giver, member', known, has', alike, learnt⟩

theorem forall₂_found (working : Working b fs paths crew) (done : crew.isDone = true) :
    List.Forall₂ (fun path found => path ∈ paths ∧ b.Possible fs paths (b.absolute path) found)
      paths crew.found := by
  have each : List.Forall₂ (fun w found => w.path ∈ paths ∧
      b.Possible fs paths (b.absolute w.path) found)
      (crew.workers.filter (fun _ => true)) (crew.workers.filterMap Worker.found?) := by
    refine forall₂_filterMap nofun (fun w member _ => ?_)
    obtain ⟨found, has, possible, -⟩ := working.ended done member
    exact ⟨found, has, working.named ▸ List.mem_map_of_mem member, possible⟩
  rw [List.filter_true] at each
  have mapped : List.Forall₂
      (fun path found => path ∈ paths ∧ b.Possible fs paths (b.absolute path) found)
      (crew.workers.map Worker.path) crew.found := List.forall₂_map_left_iff.2 each
  rwa [working.named] at mapped

theorem found_eq (working : Working b fs paths crew) (done : crew.isDone = true)
    (once : b.SpelledOnce paths) :
    crew.found = paths.map (fun path => (b.outline fs path).1) := by
  have same := map_eq_of_forall₂ (f := fun path => (b.outline fs path).1) (g := id)
    (working.forall₂_found done)
    (fun path found both => (possible_outline both.1).unique once both.2)
  rw [same, List.map_id]

private theorem known?_of_known? (one : Working b fs paths crew)
    (two : Working b fs reordered crew') (perm : paths.Perm reordered)
    (once : b.SpelledOnce reordered) (done : crew'.isDone = true) {key : RawText}
    {found : FileOutline} (known : crew.batch.known? key = some found) :
    crew'.batch.known? key = some found := by
  have possible := (one.possible known).perm perm
  have there : ∃ other, crew'.batch.known? key = some other := by
    rcases possible with before | ⟨-, path, member, alike, -⟩
    · exact ⟨found, two.kept before⟩
    · rw [← known?_congr alike]
      exact two.known_of_mem done member
  obtain ⟨other, known'⟩ := there
  rw [known', possible.unique once (two.possible known')]

theorem alike (one : Working b fs paths crew) (two : Working b fs reordered crew')
    (perm : paths.Perm reordered) (once : b.SpelledOnce paths) (done : crew.isDone = true)
    (done' : crew'.isDone = true) : Alike crew.batch crew'.batch where
  directory := one.directory.trans two.directory.symm
  config := one.config.trans two.config.symm
  known key := by
    apply Option.ext
    intro found
    exact ⟨known?_of_known? one two perm (once.perm perm.symm) done',
      known?_of_known? two one perm.symm once done⟩

end Working

/-! Every worker comes to an end -/

theorem Worker.left_move (fs : FileSystem) (b : Batch) (w : Worker) :
    (w.move fs b).1.left ≤ w.left - 1 := by
  obtain ⟨path, stage⟩ := w
  cases stage with
  | waiting =>
    cases known : b.known? (b.absolute path) with
    | some found => rw [move_of_known known]; exact Nat.zero_le _
    | none => rw [move_of_unknown known]; exact Nat.le_refl _
  | unknown => exact Nat.le_refl _
  | made found => exact Nat.le_refl _
  | done found => exact Nat.le_refl _

theorem Crew.left_move (fs : FileSystem) (crew : Crew) (i j : Nat) :
    (crew.move fs i).left j ≤ crew.left j - if i = j then 1 else 0 := by
  by_cases same : i = j
  · subst same
    rw [if_pos rfl]
    cases there : crew.workers[i]? with
    | none => simp [move, left, there]
    | some w =>
      obtain ⟨inside, rfl⟩ := List.getElem?_eq_some_iff.1 there
      simpa [move, left, inside] using crew.workers[i].left_move fs crew.batch
  · rw [if_neg same]
    cases there : crew.workers[i]? with
    | none => simp [move, there]
    | some w => simp [move, left, there, List.getElem?_set_ne same]

theorem Crew.left_run (fs : FileSystem) (crew : Crew) (schedule : List Nat) (j : Nat) :
    (crew.run fs schedule).left j ≤ crew.left j - schedule.count j := by
  induction schedule generalizing crew with
  | nil => exact Nat.le_refl _
  | cons i rest ih =>
    have moved := crew.left_move fs i j
    have later : (crew.run fs (i :: rest)).left j ≤ (crew.move fs i).left j - rest.count j :=
      ih (crew.move fs i)
    simp only [List.count_cons, beq_iff_eq]
    omega

theorem isDone_run {paths : List RawText} {schedule : List Nat}
    (turns : ∀ i < paths.length, 3 ≤ schedule.count i) :
    ((Crew.start b paths).run fs schedule).isDone = true := by
  rw [Crew.isDone, List.all_eq_true]
  intro w member
  obtain ⟨i, there⟩ := List.mem_iff_getElem?.1 member
  have rest := (Crew.start b paths).left_run fs schedule i
  have begun : (Crew.start b paths).left i ≤ schedule.count i := by
    by_cases inside : i < paths.length
    · have three : (Crew.start b paths).left i = 3 := by
        simp [Crew.left, Crew.start, inside, Worker.left]
      exact three ▸ turns i inside
    · simp [Crew.left, Crew.start, inside]
  have none : w.left = 0 := by
    rw [Crew.left, there] at rest
    exact Nat.le_zero.1 (Nat.sub_eq_zero_of_le begun ▸ rest)
  revert none
  cases stage : w.stage <;> simp [Worker.left, Worker.found?, stage]

theorem isDone_inTurn (b : Batch) (fs : FileSystem) (paths : List RawText) :
    ((Crew.start b paths).run fs (Crew.inTurn paths.length)).isDone = true :=
  isDone_run (fun _ inside => count_inTurn inside)

end Moves

end CodeOutline.Batch
