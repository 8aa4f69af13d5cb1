import CodeOutline.Proofs.Session.Replies

/-!
The order of the questions about a new file. They are asked one after the other, some of them only
when there is something to choose, and the first one that is not answered is the last. What can be
refused without a question is refused before the first.
-/

set_option autoImplicit false

namespace CodeOutline

namespace Dialogue

variable {P : List Prompt → Plan → Prop} {p : Prompter}

/-- However the questions are answered, the property holds of those asked and of the plan. -/
def Keeps (P : List Prompt → Plan → Prop) : List Prompt → Dialogue → Prop
  | asked, .finish plan => P asked plan
  | asked, .ask prompt next =>
    P (asked ++ [prompt]) .cancel ∧ ∀ reply, Keeps P (asked ++ [prompt]) (next reply)

theorem Keeps.finish {plan : Plan} {asked : List Prompt} (holds : P asked plan) :
    Keeps P asked (.finish plan) := holds

theorem Keeps.ask {prompt : Prompt} {next : String → Dialogue} {asked : List Prompt}
    (stops : P (asked ++ [prompt]) .cancel)
    (goes : ∀ reply, Keeps P (asked ++ [prompt]) (next reply)) :
    Keeps P asked (.ask prompt next) := ⟨stops, goes⟩

theorem Keeps.run {d : Dialogue} {asked : List Prompt} (keeps : Keeps P asked d) :
    P (d.run p asked).2 (d.run p asked).1 := by
  induction d generalizing asked with
  | finish plan => exact keeps
  | ask prompt next ih =>
    rw [Dialogue.run]
    cases p.answer asked prompt with
    | none => exact keeps.1
    | some reply => exact ih reply (keeps.2 reply)

theorem run_of_unanswered (d : Dialogue) (p : Prompter) (asked : List Prompt) :
    ∃ new, (d.run p asked).2 = asked ++ new ∧
      ∀ before prompt after, new = before ++ prompt :: after →
        p.answer (asked ++ before) prompt = none → after = [] ∧ (d.run p asked).1 = .cancel := by
  induction d generalizing asked with
  | finish plan =>
    refine ⟨[], (List.append_nil asked).symm, ?_⟩
    intro before prompt after parts
    simp at parts
  | ask prompt next ih =>
    rw [run]
    cases answer : p.answer asked prompt with
    | none =>
      refine ⟨[prompt], rfl, ?_⟩
      intro before other after parts unanswered
      obtain ⟨rfl, same⟩ | ⟨rest, rfl, later⟩ := List.cons_eq_append_iff.1 parts
      · obtain ⟨rfl, rfl⟩ := List.cons.inj same
        exact ⟨rfl, rfl⟩
      · simp at later
    | some reply =>
      obtain ⟨new, whole, last⟩ := ih reply (asked ++ [prompt])
      refine ⟨prompt :: new, by rw [whole, List.append_assoc, List.singleton_append], ?_⟩
      intro before other after parts unanswered
      obtain ⟨rfl, same⟩ | ⟨rest, rfl, later⟩ := List.cons_eq_append_iff.1 parts
      · obtain ⟨rfl, rfl⟩ := List.cons.inj same
        rw [List.append_nil, answer] at unanswered
        cases unanswered
      · refine last rest other after later ?_
        rwa [List.append_assoc, List.singleton_append]

end Dialogue

/-- What is refused without a question. -/
def Failure.isEarly : Failure → Bool
  | .noWorkspace | .noEntities _ | .generationUnsupported _ | .unknownEntity _
  | .ambiguousSelection _ => true
  | _ => false

theorem Plan.carryOut_error {fs : FileSystem} {plan : Plan} {failure : Failure}
    (failed : (plan.carryOut fs).1 = .error failure) :
    plan = .fail failure ∨
      ∃ directory path text, plan = .create directory path text ∧
        (failure = .destinationConflict path ∨ ∃ fault : IOFault, failure = .io fault.message) := by
  cases plan with
  | fail other => exact .inl (congrArg Plan.fail (Except.error.inj failed))
  | cancel => cases failed
  | create directory path text =>
    refine .inr ⟨directory, path, text, rfl, ?_⟩
    rw [Plan.carryOut] at failed
    split at failed
    · next made fault begun =>
      exact .inr ⟨fault, (Except.error.inj failed).symm⟩
    · next made begun =>
      unfold FileSystem.writeNew at failed
      dsimp only at failed
      split at failed
      · exact .inl (Except.error.inj failed).symm
      · exact .inr ⟨_, (Except.error.inj failed).symm⟩
      · split at failed
        · cases failed
        · exact .inr ⟨_, (Except.error.inj failed).symm⟩

namespace Session

variable {s : Session} {mode : Scaffold.Mode} {selection : Option String} {isInteractive : Bool}

/-- The question for an entity, when there are several and none is selected. -/
def entityQuestion (s : Session) (selection : Option String) (isInteractive : Bool) : List Prompt :=
  if selection = none ∧ 2 ≤ s.tree.entities.length ∧ isInteractive = true then
    [entityPrompt (s.tree.entities.map (·.2.name))]
  else []

/-- The question for an extension, when the language of the active document has some to offer. -/
def extensionQuestion (s : Session) (mode : Scaffold.Mode) : List Prompt :=
  match s.active.bind (fun d => Scaffold.Language.ofId? d.language) with
  | some l => if (l.extensions mode).isEmpty then [] else [extensionPrompt (l.extensions mode)]
  | none => []

/-- All questions in their order, with the name that is offered at first. -/
def questions (s : Session) (mode : Scaffold.Mode) (selection : Option String)
    (isInteractive : Bool) (offered : String) : List Prompt :=
  s.entityQuestion selection isInteractive ++ [namePrompt offered, directoryPrompt] ++
    s.extensionQuestion mode

structure Course (s : Session) (mode : Scaffold.Mode) (selection : Option String)
    (isInteractive : Bool) (asked : List Prompt) (plan : Plan) : Prop where
  ordered : ∃ offered, asked <+: s.questions mode selection isInteractive offered ∧
    ((∃ directory path text, plan = .create directory path text) →
      asked = s.questions mode selection isInteractive offered)
  early : ∀ failure, plan = .fail failure → failure.isEarly = true → asked = []
  unnamed : plan = .fail .emptyName → directoryPrompt ∉ asked

theorem Course.refused {failure : Failure} (named : failure ≠ .emptyName) :
    s.Course mode selection isInteractive [] (.fail failure) where
  ordered := ⟨"", List.nil_prefix, nofun⟩
  early _ _ _ := rfl
  unnamed same := absurd (Plan.fail.inj same) named

theorem Course.cancelled {asked : List Prompt} (offered : String)
    (begins : asked <+: s.questions mode selection isInteractive offered) :
    s.Course mode selection isInteractive asked .cancel where
  ordered := ⟨offered, begins, nofun⟩
  early := nofun
  unnamed := nofun

theorem directoryPrompt_not_mem (s : Session) (selection : Option String) (isInteractive : Bool)
    (offered : String) :
    directoryPrompt ∉ s.entityQuestion selection isInteractive ++ [namePrompt offered] := by
  unfold entityQuestion
  split <;> simp [directoryPrompt, namePrompt, entityPrompt]

theorem extensionQuestion_of_active (mode : Scaffold.Mode) {d : Document} {l : Scaffold.Language}
    (active : s.active = some d) (language : Scaffold.Language.ofId? d.language = some l) :
    s.extensionQuestion mode =
      if (l.extensions mode).isEmpty then [] else [extensionPrompt (l.extensions mode)] := by
  rw [extensionQuestion, active, Option.bind_some, language]

theorem Course.created {asked : List Prompt} {offered directory path text : String}
    (all : asked = s.questions mode selection isInteractive offered) :
    s.Course mode selection isInteractive asked (.create directory path text) where
  ordered := ⟨offered, ⟨[], by rw [all, List.append_nil]⟩, fun _ => all⟩
  early := nofun
  unnamed := nofun

theorem Course.emptyName {offered : String} :
    s.Course mode selection isInteractive
      (s.entityQuestion selection isInteractive ++ [namePrompt offered]) (.fail .emptyName) where
  ordered := ⟨offered, ⟨directoryPrompt :: s.extensionQuestion mode, by simp [questions]⟩, nofun⟩
  early failure same early := by
    obtain rfl := Plan.fail.inj same
    cases early
  unnamed _ := s.directoryPrompt_not_mem selection isInteractive offered

theorem askExtension_keeps {d : Document} {l : Scaffold.Language} (active : s.active = some d)
    (language : Scaffold.Language.ofId? d.language = some l) {next : Option String → Dialogue}
    {offered : String}
    (follows : ∀ extension, ∃ directory path text,
      next extension = .finish (.create directory path text)) :
    (askExtension (l.extensions mode) next).Keeps (s.Course mode selection isInteractive)
      (s.entityQuestion selection isInteractive ++ [namePrompt offered] ++ [directoryPrompt]) := by
  have extension := extensionQuestion_of_active mode active language
  have made {asked : List Prompt} (picked : Option String)
      (all : asked = s.questions mode selection isInteractive offered) :
      (next picked).Keeps (s.Course mode selection isInteractive) asked := by
    obtain ⟨directory, path, text, plan⟩ := follows picked
    exact plan ▸ .finish (.created all)
  unfold askExtension
  split
  · next fixed =>
    refine made none ?_
    rw [questions, extension, if_pos fixed]
    simp
  · next several =>
    have all : s.entityQuestion selection isInteractive ++ [namePrompt offered] ++
        [directoryPrompt] ++ [extensionPrompt (l.extensions mode)] =
          s.questions mode selection isInteractive offered := by
      rw [questions, extension, if_neg several]
      simp
    refine .ask (.cancelled offered ?_) fun reply => made (some reply) all
    exact ⟨[], by rw [all, List.append_nil]⟩

theorem askDetails_keeps {d : Document} {l : Scaffold.Language} (active : s.active = some d)
    (language : Scaffold.Language.ofId? d.language = some l) (workspace : String)
    (source : EntityKind × EntityToken) :
    (s.askDetails l d workspace mode source).Keeps (s.Course mode selection isInteractive)
      (s.entityQuestion selection isInteractive) := by
  unfold askDetails
  generalize Name.simple source.2.name l.separator = offered
  refine .ask (.cancelled offered
    ⟨directoryPrompt :: s.extensionQuestion mode, by simp [questions]⟩) fun name => ?_
  dsimp only
  generalize (Name.splitTarget (Text.trim name) l.separator none).1.isEmpty = unnamed
  cases unnamed with
  | true => exact .finish .emptyName
  | false =>
    refine .ask (.cancelled offered
      ⟨s.extensionQuestion mode, by simp [questions]⟩) fun directory => ?_
    exact askExtension_keeps active language fun extension => ⟨_, _, _, rfl⟩

theorem chooseEntity_keeps {d : Document} {next : EntityKind × EntityToken → Dialogue}
    (follows : ∀ source, (next source).Keeps (s.Course mode selection isInteractive)
      (s.entityQuestion selection isInteractive)) :
    (s.chooseEntity d selection isInteractive next).Keeps (s.Course mode selection isInteractive)
      [] := by
  unfold chooseEntity
  cases entities : s.tree.entities with
  | nil => exact .finish (.refused nofun)
  | cons source others =>
    cases selection with
    | some label =>
      have direct : s.entityQuestion (some label) isInteractive = [] := by simp [entityQuestion]
      dsimp only
      split
      · next chosen _ => exact direct ▸ follows chosen
      · exact .finish (.refused nofun)
    | none =>
      cases others with
      | nil =>
        have direct : s.entityQuestion none isInteractive = [] := by
          simp [entityQuestion, entities]
        exact direct ▸ follows source
      | cons other others =>
        dsimp only
        split
        · next interactive =>
          have asks : s.entityQuestion none isInteractive =
              [entityPrompt ((source :: other :: others).map (·.2.name))] := by
            simp [entityQuestion, entities, interactive]
          have begins : [entityPrompt ((source :: other :: others).map (·.2.name))] <+:
              s.questions mode none isInteractive "" := by
            rw [questions, asks, List.append_assoc]
            exact List.prefix_append _ _
          refine .ask (.cancelled "" begins) fun choice => ?_
          split
          · next chosen _ => exact asks ▸ follows chosen
          · exact .finish (.cancelled "" begins)
        · exact .finish (.refused nofun)

theorem dialogue_keeps (s : Session) (mode : Scaffold.Mode) (selection : Option String)
    (isInteractive : Bool) :
    (s.dialogue mode selection isInteractive).Keeps (s.Course mode selection isInteractive) [] := by
  unfold dialogue
  split
  · exact .finish (.refused nofun)
  · exact .finish (.refused nofun)
  · next workspace d here active =>
    split
    · exact .finish (.refused nofun)
    · next l language => exact chooseEntity_keeps (askDetails_keeps active language workspace)

/-- Whatever the user answers, the questions are asked in their order: the one for the entity if
several are left to choose from, those for the name and the directory, and the one for the
extension if there are several. Nothing is made before all of them are asked. What is wrong with
the session or with the selection is reported before the first question, and an empty name before
the question for the directory. A question that is not answered is the last one; then there is no
file and nothing has changed. -/
theorem generate_asks (s : Session) (fs : FileSystem) (mode : Scaffold.Mode)
    (selection : Option String) (p : Prompter) :
    let g := s.generate fs mode selection p
    (∃ offered, g.asked <+: s.questions mode selection p.isInteractive offered ∧
      (g.files ≠ fs ∨ (∃ path, g.result = .ok (some path)) →
        g.asked = s.questions mode selection p.isInteractive offered)) ∧
    (∀ failure, g.result = .error failure → failure.isEarly = true → g.asked = []) ∧
    (g.result = .error .emptyName → directoryPrompt ∉ g.asked) ∧
    (∀ before prompt after, g.asked = before ++ prompt :: after → p.answer before prompt = none →
      after = [] ∧ g.result = .ok none ∧ g.files = fs) := by
  have course := (s.dialogue_keeps mode selection p.isInteractive).run (p := p)
  obtain ⟨new, whole, last⟩ := (s.dialogue mode selection p.isInteractive).run_of_unanswered p []
  rw [List.nil_append] at whole
  unfold generate
  generalize (s.dialogue mode selection p.isInteractive).run p [] = run at course whole last
  obtain ⟨plan, asked⟩ := run
  dsimp only at course whole last ⊢
  subst whole
  obtain ⟨offered, begins, all⟩ := course.ordered
  refine ⟨⟨offered, begins, fun changed => all ?_⟩, ?_, ?_, ?_⟩
  · cases plan with
    | create directory path text => exact ⟨directory, path, text, rfl⟩
    | cancel | fail failure => simp [Plan.carryOut] at changed
  · intro failure failed early
    obtain planned | ⟨_, _, _, -, rfl | ⟨fault, rfl⟩⟩ := plan.carryOut_error failed
    · exact course.early failure planned early
    · cases early
    · cases early
  · intro failed
    obtain planned | ⟨_, _, _, -, other | ⟨fault, other⟩⟩ := plan.carryOut_error failed
    · exact course.unnamed planned
    · cases other
    · cases other
  · intro before prompt after parts unanswered
    obtain ⟨rfl, rfl⟩ := last before prompt after parts unanswered
    exact ⟨rfl, rfl, rfl⟩

end Session

end CodeOutline
