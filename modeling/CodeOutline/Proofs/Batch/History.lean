import CodeOutline.Proofs.Batch.Schedule

/-!
What a batch answers, told from the rounds of queries since all was forgotten. The first round in
which a file was asked for decides: the file has the analysis that it had then, under one of the
spellings in that round, and a later query has the same answer, a failure too, whatever became of
the file. Two spellings are of the same file when their absolute paths have the same components;
dots that lead back are not followed.
-/

set_option autoImplicit false

namespace CodeOutline.Batch

/-- What can happen to a batch and to the files that it reads. -/
inductive Action
  | outline (path : RawText)
  /-- Files are asked for at the same time, in the moves of a schedule. -/
  | atOnce (paths : List RawText) (schedule : List Nat)
  | forget
  /-- The files become others, by being written or removed. -/
  | alter (files : FileSystem → FileSystem)

/-- A batch and the files behind an action. -/
def act : Batch × FileSystem → Action → Batch × FileSystem
  | (b, fs), .outline path => ((b.outline fs path).2, fs)
  | (b, fs), .atOnce paths schedule => (((Crew.start b paths).run fs schedule).batch, fs)
  | (b, fs), .forget => (b.forget, fs)
  | (b, fs), .alter files => (b, files fs)

def run (state : Batch × FileSystem) (actions : List Action) : Batch × FileSystem :=
  actions.foldl act state

/-- Who asks for files at the same time waits for the last one. -/
def Action.IsFair : Action → Prop
  | .atOnce paths schedule => ∀ i < paths.length, 3 ≤ schedule.count i
  | _ => True

/-- Paths that are asked for at the same time, and the files at that moment. -/
structure Round where
  files : FileSystem
  paths : List RawText

/-- The files behind some actions, and the rounds since all was forgotten, the first one first. -/
structure History where
  files : FileSystem
  asked : List Round := []

namespace History

def add (h : History) : Action → History
  | .outline path => { h with asked := h.asked ++ [⟨h.files, [path]⟩] }
  | .atOnce paths _ => { h with asked := h.asked ++ [⟨h.files, paths⟩] }
  | .forget => { h with asked := [] }
  | .alter files => { h with files := files h.files }

/-- The history of actions in the order in which they happened. -/
def of (files : FileSystem) (actions : List Action) : History := actions.foldl add { files }

end History

/-- The analyses of a file as it was in a round, under its spellings there. -/
def Round.answers (b : Batch) (key : RawText) (round : Round) : List FileOutline :=
  (round.paths.filter (fun path => Path.same (b.absolute path) key)).map
    (fun path => b.analyze round.files (b.absolute path))

/-- The analyses of a file in the first round in which it was asked for. -/
def answers (b : Batch) (rounds : List Round) (key : RawText) : List FileOutline :=
  ((rounds.map (Round.answers b key)).find? (fun found => !found.isEmpty)).getD []

/-- The outline is given for a file, in whatever spelling, until all is forgotten. -/
def Keeps (state : Batch × FileSystem) (key : RawText) (found : FileOutline) : Prop :=
  ∀ later : List Action, .forget ∉ later →
    ∀ path, Path.same (state.1.absolute path) key = true →
      let after := run state later
      (after.1.outline after.2 path).1 = found

section Answers

variable {start b : Batch} {rounds : List Round} {key : RawText} {fs : FileSystem}
  {paths : List RawText} {found : FileOutline}

theorem answers_concat (b : Batch) (rounds : List Round) (round : Round) (key : RawText) :
    b.answers (rounds ++ [round]) key =
      if b.answers rounds key = [] then round.answers b key else b.answers rounds key := by
  unfold answers
  rw [List.map_append, List.find?_append, List.map_singleton, List.find?_singleton]
  cases first : (rounds.map (Round.answers b key)).find? (fun found => !found.isEmpty) with
  | none =>
    rw [Option.none_or, Option.getD_none, if_pos rfl]
    split
    · rfl
    · next empty =>
      have nothing : round.answers b key = [] := by simpa using empty
      exact nothing.symm
  | some found =>
    have filled : found ≠ [] := by simpa using List.find?_some first
    rw [Option.some_or, Option.getD_some, if_neg filled]

theorem mem_round_answers {round : Round} : found ∈ round.answers b key ↔
    ∃ path ∈ round.paths, Path.same (b.absolute path) key = true ∧
      found = b.analyze round.files (b.absolute path) := by
  simp only [Round.answers, List.mem_map, List.mem_filter, and_assoc]
  exact exists_congr fun path => and_congr_right' (and_congr_right' eq_comm)

theorem answers_unique (once : ∀ round ∈ rounds, b.SpelledOnce round.paths) {other : FileOutline}
    (answer : found ∈ b.answers rounds key) (answer' : other ∈ b.answers rounds key) :
    found = other := by
  unfold answers at answer answer'
  cases first : (rounds.map (Round.answers b key)).find? (fun found => !found.isEmpty) with
  | none => rw [first] at answer; cases answer
  | some all =>
    obtain ⟨round, member, rfl⟩ := List.mem_map.1 (List.mem_of_find?_eq_some first)
    rw [first, Option.getD_some, mem_round_answers] at answer answer'
    obtain ⟨path, there, alike, rfl⟩ := answer
    obtain ⟨path', there', alike', rfl⟩ := answer'
    rw [Path.same_iff] at alike alike'
    rw [once round member path there path' there' (Path.same_iff.2 (alike.trans alike'.symm))]

/-! What stays known -/

theorem known?_of_atOnce (known : b.known? key = some found) (schedule : List Nat) :
    ((Crew.start b paths).run fs schedule).batch.known? key = some found :=
  (Working.start.run schedule).kept known

theorem run_alone (b : Batch) (fs : FileSystem) (path : RawText) :
    (Crew.start b [path]).run fs [0, 0, 0] =
      ⟨(b.outline fs path).2, [⟨path, .done (b.outline fs path).1⟩]⟩ :=
  Crew.run_undisturbed fs b [] [] path

theorem act_of_outline (b : Batch) (fs : FileSystem) (path : RawText) :
    act (b, fs) (.outline path) = act (b, fs) (.atOnce [path] [0, 0, 0]) := by
  rw [act, act, run_alone]

theorem keeps_of_known {state : Batch × FileSystem} (known : state.1.known? key = some found) :
    Keeps state key found := by
  intro later kept path alike
  induction later generalizing state with
  | nil =>
    have here : state.1.known? (state.1.absolute path) = some found := known?_congr alike ▸ known
    exact congrArg Prod.fst (outline_of_known here)
  | cons action later ih =>
    rw [List.mem_cons, not_or] at kept
    obtain ⟨b, fs⟩ := state
    have still : (act (b, fs) action).1.known? key = some found ∧
        (act (b, fs) action).1.directory = b.directory := by
      cases action with
      | outline path' =>
        rw [act_of_outline]
        exact ⟨known?_of_atOnce known _, (Working.start.run _).directory⟩
      | atOnce paths schedule =>
        exact ⟨known?_of_atOnce known _, (Working.start.run _).directory⟩
      | forget => exact absurd rfl kept.1
      | alter files => exact ⟨known, rfl⟩
    have spelled : Path.same ((act (b, fs) action).1.absolute path) key = true := by
      rw [absolute, still.2]
      exact alike
    exact ih still.1 kept.2 spelled

/-! Histories -/

/-- A batch that knew nothing at the start and the files behind it, after a history: it knows
an answer for each file that was asked for, and no more. -/
structure Follows (start : Batch) (h : History) (state : Batch × FileSystem) : Prop where
  files : state.2 = h.files
  directory : state.1.directory = start.directory
  config : state.1.config = start.config
  known {key : RawText} {found : FileOutline} (known : state.1.known? key = some found) :
    found ∈ start.answers h.asked key
  unknown {key : RawText} (unknown : state.1.known? key = none) : start.answers h.asked key = []

namespace Follows

variable {h : History} {crew : Crew}

theorem absolute_eq (follows : Follows start h (b, fs)) (path : RawText) :
    b.absolute path = start.absolute path := by
  rw [absolute, absolute, follows.directory]

theorem mem_answers (follows : Follows start h (b, fs))
    (possible : b.Possible fs paths key found) :
    found ∈ start.answers (h.asked ++ [⟨fs, paths⟩]) key := by
  rw [answers_concat]
  rcases possible with known | ⟨unknown, path, member, alike, rfl⟩
  · have answer := follows.known known
    rwa [if_neg (List.ne_nil_of_mem answer)]
  · rw [if_pos (follows.unknown unknown), mem_round_answers]
    rw [follows.absolute_eq] at alike
    refine ⟨path, member, alike, ?_⟩
    rw [follows.absolute_eq]
    exact analyze_congr follows.directory follows.config

theorem round (follows : Follows start h (b, fs)) (working : Working b fs paths crew)
    (done : crew.isDone = true) :
    Follows start { h with asked := h.asked ++ [⟨h.files, paths⟩] } (crew.batch, fs) := by
  obtain rfl : fs = h.files := follows.files
  refine ⟨rfl, working.directory.trans follows.directory, working.config.trans follows.config,
    fun known => follows.mem_answers (working.possible known), ?_⟩
  intro key unknown
  rw [answers_concat, if_pos (follows.unknown (working.unknown unknown)),
    List.eq_nil_iff_forall_not_mem]
  intro found answer
  obtain ⟨path, member, alike, -⟩ := mem_round_answers.1 answer
  obtain ⟨found', known⟩ := working.known_of_mem done member
  rw [← follows.absolute_eq] at alike
  rw [known?_congr alike, unknown] at known
  cases known

theorem act {state : Batch × FileSystem} (follows : Follows start h state) {action : Action}
    (fair : action.IsFair) : Follows start (h.add action) (Batch.act state action) := by
  obtain ⟨b, fs⟩ := state
  cases action with
  | outline path =>
    rw [act_of_outline]
    exact follows.round (Working.start.run _) (isDone_run (by simp))
  | atOnce paths schedule => exact follows.round (Working.start.run _) (isDone_run fair)
  | forget => exact ⟨follows.files, follows.directory, follows.config, nofun, fun _ => rfl⟩
  | alter files =>
    exact ⟨congrArg files follows.files, follows.directory, follows.config, follows.known,
      follows.unknown⟩

theorem run {state : Batch × FileSystem} (follows : Follows start h state)
    {actions : List Action} (fair : ∀ action ∈ actions, action.IsFair) :
    Follows start (actions.foldl History.add h) (Batch.run state actions) := by
  induction actions generalizing h state with
  | nil => exact follows
  | cons action rest ih =>
    rw [List.forall_mem_cons] at fair
    exact ih (follows.act fair.1) fair.2

end Follows

end Answers

/-- Every outline is an analysis of the file as it was in the first round since all was forgotten
in which it was asked for, under one of its spellings then, and one of the outlines that were given
in that round is given again for every spelling of the file until all is forgotten, whatever
becomes of the files. Rounds in which no file is spelled in two ways leave one answer. -/
theorem outline_run (directory : RawText) (config : Config) (files : FileSystem)
    {actions : List Action} (fair : ∀ action ∈ actions, action.IsFair) :
    let start : Batch := { directory, config }
    let b := (run (start, files) actions).1
    let h := History.of files actions
    (run (start, files) actions).2 = h.files ∧
      (∀ path, let found := (b.outline h.files path).1
        found ∈ start.answers (h.asked ++ [⟨h.files, [path]⟩]) (start.absolute path) ∧
        Keeps ((b.outline h.files path).2, h.files) (start.absolute path) found) ∧
      (∀ paths schedule, (Action.atOnce paths schedule).IsFair →
        let crew := (Crew.start b paths).run h.files schedule
        let rounds := h.asked ++ [⟨h.files, paths⟩]
        List.Forall₂ (fun path found => found ∈ start.answers rounds (start.absolute path))
          paths crew.found ∧
        ∀ path ∈ paths, ∃ w ∈ crew.workers, ∃ found, w.found? = some found ∧
          Path.same (start.absolute w.path) (start.absolute path) = true ∧
          Keeps (crew.batch, h.files) (start.absolute path) found) ∧
      (∀ paths, ∃ schedule, (Action.atOnce paths schedule).IsFair ∧
        let crew := (Crew.start b paths).run h.files schedule
        b.outlineAll h.files paths = (crew.outlines, crew.batch)) ∧
      ∀ rounds key, (∀ round ∈ rounds, start.SpelledOnce round.paths) →
        ∀ found ∈ start.answers rounds key, ∀ other ∈ start.answers rounds key,
          found = other := by
  intro start b h
  have nothing : Follows start { files } (start, files) :=
    ⟨rfl, rfl, rfl, nofun, fun _ => rfl⟩
  have reached : Follows start h (run (start, files) actions) := nothing.run fair
  have follows : Follows start h (b, h.files) := by
    rw [← reached.files]
    exact reached
  have place (path : RawText) : b.absolute path = start.absolute path := follows.absolute_eq path
  refine ⟨reached.files, fun path => ?_, fun paths schedule turns => ?_, fun paths => ?_,
    fun rounds key once found answer other answer' => answers_unique once answer answer'⟩
  · have possible : b.Possible h.files [path] (start.absolute path) (b.outline h.files path).1 :=
      place path ▸ possible_outline List.mem_cons_self
    have known := known?_outline b h.files path
    rw [place] at known
    exact ⟨follows.mem_answers possible, keeps_of_known known⟩
  · have working : Working b h.files paths _ := Working.start.run schedule
    have done : ((Crew.start b paths).run h.files schedule).isDone = true := isDone_run turns
    constructor
    · refine (working.forall₂_found done).imp ?_
      rintro path found ⟨-, possible⟩
      exact follows.mem_answers (place path ▸ possible)
    · intro path member
      obtain ⟨w, worker, found, has, alike, known⟩ := working.exists_giver done member
      rw [place, place] at alike
      rw [place] at known
      exact ⟨w, worker, found, has, alike, keeps_of_known known⟩
  · exact ⟨Crew.inTurn paths.length, fun i inside => count_inTurn inside,
      outlineAll_eq_inTurn h.files b paths⟩

/-- A file that is asked for twice at once, and again, in another spelling, after it was written
anew. -/
theorem outline_run_rewritten :
    let site : Location := ["ws", "src", "site.css"]
    let files : FileSystem := {
      entries := [(["ws"], .directory), (["ws", "src"], .directory),
        (site, .file (.text ".a { color: red; }\n"))] }
    let start : Batch := { directory := "/ws", config := {} }
    let both : Action := .atOnce ["src/site.css", "/ws/src/site.css"] [0, 1, 0, 1, 0, 1]
    let rewrite : Action := .alter (fun fs => fs.put site (.file (.text ".b { top: 0 }")))
    (∀ action ∈ [both, rewrite], action.IsFair) ∧
      let state := run (start, files) [both, rewrite]
      (state.1.outline state.2 "/ws//src/site.css").1 = start.analyze files "/ws/src/site.css" := by
  intro site files start both rewrite
  have fair : ∀ action ∈ [both, rewrite], action.IsFair := by
    rw [List.forall_mem_cons, List.forall_mem_singleton]
    have turns : ∀ i < 2, 3 ≤ [0, 1, 0, 1, 0, 1].count i := by decide
    exact ⟨turns, trivial⟩
  refine ⟨fair, ?_⟩
  intro state
  obtain ⟨-, single, -⟩ := outline_run "/ws" {} files fair
  have answer : (state.1.outline state.2 "/ws//src/site.css").1 ∈
      [start.analyze files "/ws/src/site.css", start.analyze files "/ws/src/site.css"] :=
    (single "/ws//src/site.css").1
  simpa using answer

/-- One file under two spellings at once, each of which is answered by its own analysis. And a
spelling that leads back, which is not known to be of the same file when that is there. -/
theorem outline_two_spellings :
    let start : Batch := { directory := "/ws", config := {} }
    let crew := (Crew.start start ["src/a.css", "src//a.css"]).run {} [0, 1, 0, 1, 0, 1]
    let files : FileSystem := {
      entries := [(["ws"], .directory), (["ws", "a.css"], .file (.bytes [0xFF]))] }
    let state := run (start, {}) [.outline "sub/../a.css", .alter (fun _ => files)]
    crew.isDone = true ∧
      Path.same (start.absolute "src/a.css") (start.absolute "src//a.css") = true ∧
      crew.found.map FileOutline.path = ["src/a.css", "src//a.css"] ∧
      Path.resolve [] (start.absolute "sub/../a.css") = Path.resolve [] (start.absolute "a.css") ∧
      (state.1.outline state.2 "a.css").1.fault ≠ (start.outline {} "sub/../a.css").1.fault := by
  decide +kernel

end CodeOutline.Batch
