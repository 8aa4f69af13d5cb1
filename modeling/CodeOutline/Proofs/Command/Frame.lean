import CodeOutline.Command.Arguments
import CodeOutline.Command.Run
import CodeOutline.Proofs.FileSystem.Changes
import CodeOutline.Proofs.Session.Generation

/-!
What a command leaves of the files. Those that were there stay as they are, and one more comes to
be exactly when a request for a new file succeeds. Settings files are the exception: they are
looked for before the directories of their path are made, and nothing stops the writing after it.
-/

set_option autoImplicit false

namespace CodeOutline.Command

open FileSystem (AddsDirectories SetsFile GainsFile)

/-- There is a file where none was before. -/
def IsNew (before after : FileSystem) (l : Location) : Prop :=
  (∃ c, after.at? l = some (.file c)) ∧ ∀ c, before.at? l ≠ some (.file c)

/-- Whether a new file is asked for. -/
def Request.makesFile : Request → Bool
  | .outline _ => false
  | .generate _ => true
  | .init r => !r.isList

/-- All files are kept, at most one is new, and one is exactly when one was asked for and the
command ends well. -/
structure KeepsFrame (s : Setting) (r : Request) : Prop where
  kept : ∀ l c, s.files.at? l = some (.file c) → (run s r).files.at? l = some (.file c)
  single : ∀ l l', IsNew s.files (run s r).files l → IsNew s.files (run s r).files l' → l = l'
  new_iff : (∃ l, IsNew s.files (run s r).files l) ↔
    r.makesFile = true ∧ (run s r).code = .success

section Frame

variable {s : Setting} {r : Request}

private theorem KeepsFrame.of_same
    (same : ∀ l c, (run s r).files.at? l = some (.file c) ↔ s.files.at? l = some (.file c))
    (fails : r.makesFile = true → (run s r).code ≠ .success) : KeepsFrame s r := by
  have none_new (l : Location) : ¬IsNew s.files (run s r).files l := by
    rintro ⟨⟨c, there⟩, absent⟩
    exact absent c ((same l c).1 there)
  exact {
    kept := fun l c there => (same l c).2 there
    single := fun l _ new => absurd new (none_new l)
    new_iff := ⟨fun ⟨l, new⟩ => absurd new (none_new l), fun ⟨asks, ends⟩ => absurd ends (fails asks)⟩ }

private theorem KeepsFrame.of_gained {l : Location} {content : Content}
    (absent : ∀ c, s.files.at? l ≠ some (.file c))
    (file_iff : ∀ l' c, (run s r).files.at? l' = some (.file c) ↔
      s.files.at? l' = some (.file c) ∨ (l' = l ∧ c = content))
    (asks : r.makesFile = true) (ends : (run s r).code = .success) : KeepsFrame s r := by
  have new_iff (l' : Location) : IsNew s.files (run s r).files l' ↔ l' = l := by
    constructor
    · rintro ⟨⟨c, there⟩, fresh⟩
      exact (((file_iff l' c).1 there).resolve_left (fresh c)).1
    · rintro rfl
      exact ⟨⟨content, (file_iff l' content).2 (.inr ⟨rfl, rfl⟩)⟩, absent⟩
  exact {
    kept := fun l' c there => (file_iff l' c).2 (.inl there)
    single := fun a b left right => ((new_iff a).1 left).trans ((new_iff b).1 right).symm
    new_iff := ⟨fun _ => ⟨asks, ends⟩, fun _ => ⟨l, (new_iff l).2 rfl⟩⟩ }

end Frame

/-! What holds of the outcome of a command, whether it comes to its end or stops before. -/

def Ends (P : Outcome → Prop) (x : Except Outcome Outcome) : Prop :=
  ∀ o, x = .ok o ∨ x = .error o → P o

namespace Ends

variable {P : Outcome → Prop} {o : Outcome} {ε α : Type}

private theorem done (holds : P o) : Ends P (pure o) := by
  rintro o' (same | stopped)
  · exact Except.ok.inj same ▸ holds
  · cases stopped

private theorem stop (holds : P o) {f : α → Except Outcome Outcome} :
    Ends P (throw o >>= f) := by
  rintro o' (ended | same)
  · cases ended
  · exact Except.error.inj same ▸ holds

private theorem bind {x : Except Outcome α} {f : α → Except Outcome Outcome}
    (stops : ∀ o, x = .error o → P o) (goes : ∀ a, x = .ok a → Ends P (f a)) :
    Ends P (x >>= f) := by
  cases x with
  | ok a => exact goes a rfl
  | error o =>
    rintro o' (ended | same)
    · cases ended
    · exact Except.error.inj same ▸ stops o rfl

private theorem attempt {x : Except ε α} {g : ε → Outcome} {f : α → Except Outcome Outcome}
    (stops : ∀ e, x = .error e → P (g e)) (goes : ∀ a, x = .ok a → Ends P (f a)) :
    Ends P (x.mapError g >>= f) := by
  cases x with
  | ok a => exact goes a rfl
  | error e => exact bind (fun o same => Except.error.inj same ▸ stops e rfl) nofun

private theorem choose {c : Prop} [Decidable c] {x y : Except Outcome Outcome}
    (first : c → Ends P x) (second : ¬c → Ends P y) : Ends P (if c then x else y) := by
  split
  · next holds => exact first holds
  · next fails => exact second fails

private theorem of_run {s : Setting} {r : Request} {x : Except Outcome Outcome}
    (runs : run s r = match x with | .ok o => o | .error o => o) (ends : Ends P x) :
    P (run s r) := by
  rw [runs]
  cases x with
  | ok o => exact ends o (.inl rfl)
  | error o => exact ends o (.inr rfl)

end Ends

private theorem files_of_loadConfig {s : Setting} {named : Option String} {o : Outcome}
    (stopped : loadConfig s named = .error o) : o.files = s.files ∧ o.code = .error := by
  unfold loadConfig at stopped
  split at stopped
  · cases stopped
  · obtain rfl := Except.error.inj stopped
    exact ⟨rfl, rfl⟩

theorem files_outline (s : Setting) (r : OutlineRequest) :
    (run s (.outline r)).files = s.files := by
  have ends : Ends (fun o => o.files = s.files) (outline s r) := by
    unfold outline
    dsimp only
    refine .choose (fun _ => .stop ?_) (fun _ => ?_)
    · rfl
    refine .bind (fun o stopped => (files_of_loadConfig stopped).1) (fun config _ => ?_)
    refine .attempt (fun _ _ => rfl) (fun path _ => ?_)
    refine .choose (fun _ => .done ?_) (fun _ => .done ?_)
    · rfl
    · rfl
  exact Ends.of_run (x := outline s r) rfl ends

def GainsOrFails (fs : FileSystem) (o : Outcome) : Prop :=
  ((∀ l c, o.files.at? l = some (.file c) ↔ fs.at? l = some (.file c)) ∧ o.code ≠ .success) ∨
    ∃ path text l, GainsFile fs o.files path text l ∧ o.code = .success

private theorem GainsOrFails.of_same {fs : FileSystem} {o : Outcome} (files : o.files = fs)
    (code : o.code = .error) : GainsOrFails fs o := by
  refine .inl ⟨fun l c => by rw [files], ?_⟩
  rw [code]
  exact Code.noConfusion

theorem generate_cases (s : Setting) (r : GenerateRequest) :
    GainsOrFails s.files (run s (.generate r)) := by
  have ends : Ends (GainsOrFails s.files) (generate s r) := by
    unfold generate
    refine .bind (fun o stopped => ?_) (fun config _ => ?_)
    · obtain ⟨files, code⟩ := files_of_loadConfig stopped
      exact .of_same files code
    dsimp only
    split
    case h_2 => exact .stop (.of_same rfl rfl)
    refine .attempt (fun _ _ => .of_same rfl rfl) (fun text _ => ?_)
    rcases Session.generate_cases _ s.files r.mode r.entity (prompterOf r) with
      ⟨c, replies, l, -, -, result, gains⟩ | ⟨failed, same⟩
    · rw [result]
      exact .done (.inr ⟨_, _, l, gains, rfl⟩)
    · split
      case h_1 path result => exact absurd result (failed path)
      case h_2 => exact .done (.inl ⟨same, Code.noConfusion⟩)
      split
      · exact .done (.inl ⟨same, Code.noConfusion⟩)
      · exact .done (.inl ⟨same, Code.noConfusion⟩)
      · exact .done (.inl ⟨same, Code.noConfusion⟩)
  exact Ends.of_run (x := generate s r) rfl ends

/-- A settings file is written at a location where no directory is, over a file that may be there.
Nothing was seen there before the directories of its path were made. The file holds the template,
or as much of it as there is room for. -/
structure Writes (s : Setting) (r : InitRequest) (l : Location) (o : Outcome) : Prop where
  asks : r.isList = false
  unseen : s.files.isThere r.output = false
  target : l = Path.resolve s.files.current r.output
  free : s.files.at? l ≠ some .directory
  others : ∀ l', l' ≠ l → ∀ c,
    o.files.at? l' = some (.file c) ↔ s.files.at? l' = some (.file c)
  here : ∃ template, Template.find? r.template = some template ∧
    ((o.code = .success ∧ o.files.at? l = some (.file (.text template.content))) ∨
      (o.code = .error ∧ ∃ n, s.files.room = some n ∧ n < template.content.utf8ByteSize ∧
        o.files.at? l = some (.file (.bytes (template.content.toUTF8.toList.take n)))))

theorem init_cases (s : Setting) (r : InitRequest) :
    ((∀ l c, (run s (.init r)).files.at? l = some (.file c) ↔ s.files.at? l = some (.file c)) ∧
        ((run s (.init r)).code = .success → r.isList = true)) ∨
      ∃ l, Writes s r l (run s (.init r)) := by
  have ends : Ends (fun o =>
      ((∀ l c, o.files.at? l = some (.file c) ↔ s.files.at? l = some (.file c)) ∧
        (o.code = .success → r.isList = true)) ∨ ∃ l, Writes s r l o) (init s r) := by
    unfold init
    dsimp only
    refine .choose (fun list => .done (.inl ⟨fun _ _ => .rfl, fun _ => list⟩)) (fun unlisted => ?_)
    split
    case h_2 => exact .stop (.inl ⟨fun _ _ => .rfl, Code.noConfusion⟩)
    next template found =>
    refine .choose (fun _ => .stop (.inl ⟨fun _ _ => .rfl, Code.noConfusion⟩)) (fun unseen => ?_)
    have adds := s.files.makeDirectories_adds ((Path.parent? r.output).getD "")
    generalize s.files.makeDirectories ((Path.parent? r.output).getD "") = begun at adds
    refine .attempt (fun _ _ => .inl ⟨adds.file_iff, Code.noConfusion⟩) (fun _ _ => ?_)
    have asks : r.isList = false := Bool.not_eq_true _ ▸ unlisted
    have absent : s.files.isThere r.output = false := Bool.not_eq_true _ ▸ unseen
    have free {l c} (sets : SetsFile begun.1 (begun.1.save r.output template.content).1 l c) :
        s.files.at? l ≠ some .directory := fun there => sets.free (adds.kept l _ there)
    have others {l c} (sets : SetsFile begun.1 (begun.1.save r.output template.content).1 l c) :
        ∀ l', l' ≠ l → ∀ c, (begun.1.save r.output template.content).1.at? l' = some (.file c) ↔
          s.files.at? l' = some (.file c) :=
      fun l' other c => by rw [sets.rest l' other, adds.file_iff]
    rcases begun.1.save_cases r.output template.content with
      ⟨fault, failed⟩ | ⟨l, c, target, sets, ⟨saved, rfl⟩ | ⟨full, n, room, short, rfl⟩⟩
    · rw [failed]
      exact .attempt (fun _ _ => .inl ⟨adds.file_iff, Code.noConfusion⟩) nofun
    · rw [adds.current] at target
      rw [saved]
      exact .attempt nofun (fun _ _ => .done (.inr ⟨l, asks, absent, target, free sets, others sets,
        template, found, .inl ⟨rfl, sets.entry⟩⟩))
    · rw [adds.current] at target
      rw [full]
      exact .attempt (fun _ _ => .inr ⟨l, asks, absent, target, free sets, others sets,
        template, found, .inr ⟨rfl, n, adds.room ▸ room, short, sets.entry⟩⟩) nofun
  exact Ends.of_run (x := init s r) rfl ends

/-- A settings file is written over a file that was there, or a part of one stays behind a
failure. -/
def Oversteps (s : Setting) (r : InitRequest) : Prop :=
  ∃ l, Writes s r l (run s (.init r)) ∧
    (((run s (.init r)).code = .success ∧ ∃ c, s.files.at? l = some (.file c)) ∨
      ((run s (.init r)).code = .error ∧ s.files.at? l ≠ (run s (.init r)).files.at? l))

namespace Writes

variable {s : Setting} {r : InitRequest} {l : Location} {o : Outcome} (writes : Writes s r l o)

include writes

private theorem exists_content : ∃ c, o.files.at? l = some (.file c) := by
  obtain ⟨template, -, ⟨-, whole⟩ | ⟨-, n, -, -, part⟩⟩ := writes.here
  · exact ⟨_, whole⟩
  · exact ⟨_, part⟩

private theorem eq_of_isNew {l' : Location} (new : IsNew s.files o.files l') : l' = l := by
  obtain ⟨⟨c, there⟩, absent⟩ := new
  by_contra other
  exact absent c ((writes.others l' other c).1 there)

private theorem file_iff (same : s.files.at? l = o.files.at? l) (l' : Location) (c : Content) :
    o.files.at? l' = some (.file c) ↔ s.files.at? l' = some (.file c) := by
  by_cases here : l' = l
  · rw [here, same]
  · exact writes.others l' here c

end Writes

private theorem KeepsFrame.not_oversteps {s : Setting} {r : InitRequest}
    (keeps : KeepsFrame s (.init r)) : ¬Oversteps s r := by
  rintro ⟨l, writes, ⟨ends, c, there⟩ | ⟨fails, changed⟩⟩
  · have asks : (Request.init r).makesFile = true := by simp [Request.makesFile, writes.asks]
    obtain ⟨l', new⟩ := keeps.new_iff.2 ⟨asks, ends⟩
    obtain rfl := writes.eq_of_isNew new
    exact new.2 c there
  · obtain ⟨c, after⟩ := writes.exists_content
    have absent (d : Content) : s.files.at? l ≠ some (.file d) := by
      intro before
      exact changed (before.trans (keeps.kept l d before).symm)
    have ends := (keeps.new_iff.1 ⟨l, ⟨c, after⟩, absent⟩).2
    rw [fails] at ends
    cases ends

private theorem Writes.keepsFrame {s : Setting} {r : InitRequest} {l : Location}
    (writes : Writes s r l (run s (.init r))) (within : ¬Oversteps s r) :
    KeepsFrame s (.init r) := by
  have asks : (Request.init r).makesFile = true := by simp [Request.makesFile, writes.asks]
  obtain ⟨template, found, ⟨ends, whole⟩ | ⟨fails, part⟩⟩ := writes.here
  · have absent (c : Content) : s.files.at? l ≠ some (.file c) :=
      fun there => within ⟨l, writes, .inl ⟨ends, c, there⟩⟩
    have file_iff (l' : Location) (c : Content) :
        (run s (.init r)).files.at? l' = some (.file c) ↔
          s.files.at? l' = some (.file c) ∨ (l' = l ∧ c = .text template.content) := by
      by_cases here : l' = l
      · rw [here, whole]
        simp [absent, eq_comm]
      · simp [writes.others l' here c, here]
    exact .of_gained absent file_iff asks ends
  · have same : s.files.at? l = (run s (.init r)).files.at? l := by
      by_contra changed
      exact within ⟨l, writes, .inr ⟨fails, changed⟩⟩
    refine .of_same (writes.file_iff same) (fun _ ends => ?_)
    rw [fails] at ends
    cases ends

/-- Each command keeps all files and makes one exactly when it is asked to and ends well. The only
exceptions are settings files at a path that leads to another file once its directories are made,
and settings files that there is no room for. -/
theorem keepsFrame_iff (s : Setting) (r : Request) :
    KeepsFrame s r ↔ ∀ i, r = .init i → ¬Oversteps s i := by
  cases r with
  | outline r =>
    have keeps : KeepsFrame s (.outline r) :=
      .of_same (fun l c => by rw [files_outline]) nofun
    exact ⟨fun _ => nofun, fun _ => keeps⟩
  | generate r =>
    have keeps : KeepsFrame s (.generate r) := by
      rcases generate_cases s r with ⟨same, fails⟩ | ⟨path, text, l, gains, ends⟩
      · exact .of_same same (fun _ => fails)
      · exact .of_gained (fun c there => by simp [gains.absent] at there) gains.file_iff rfl ends
    exact ⟨fun _ => nofun, fun _ => keeps⟩
  | init r =>
    constructor
    · rintro keeps i ⟨⟩
      exact keeps.not_oversteps
    · intro within
      rcases init_cases s r with ⟨same, lists⟩ | ⟨l, writes⟩
      · refine .of_same same (fun asks ends => ?_)
        simp [Request.makesFile, lists ends] at asks
      · exact writes.keepsFrame (within r rfl)

def keepSetting : Setting where
  files := {
    entries := [(["w"], .directory), (["w", "keep.txt"], .file (.text "mine"))]
    current := ["w"] }

/-- A path through a directory that is made on the way leads back to the file. -/
theorem not_keepsFrame :
    ¬∀ (s : Setting) (arguments : List String) (r : Request),
      Request.ofArguments arguments = .ok r → KeepsFrame s r := by
  intro all
  have keeps := all keepSetting ["init", "-o", "new/../keep.txt"]
    (.init { output := "new/../keep.txt" }) (by rfl)
  have after := keeps.kept ["w", "keep.txt"] (.text "mine") (by decide)
  exact absurd after (by decide +kernel)

end CodeOutline.Command
