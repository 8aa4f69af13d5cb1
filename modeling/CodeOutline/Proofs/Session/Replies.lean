import CodeOutline.Proofs.Scaffold.Lines
import CodeOutline.Session

/-!
The replies that lead to a new file, and what they settle: a dialogue as the relation between
the replies to its questions and the plan it ends with.
-/

set_option autoImplicit false

namespace CodeOutline

/-- Asked one question after the other, the user gives these replies. -/
def Prompter.Gives (p : Prompter) : List Prompt → List (Prompt × String) → Prop
  | _, [] => True
  | asked, (prompt, reply) :: replies =>
    p.answer asked prompt = some reply ∧ p.Gives (asked ++ [prompt]) replies

namespace Dialogue

inductive Leads : Dialogue → List (Prompt × String) → Plan → Prop
  | finish (plan : Plan) : Leads (.finish plan) [] plan
  | ask {prompt : Prompt} {next : String → Dialogue} {reply : String}
      {replies : List (Prompt × String)} {plan : Plan} :
      Leads (next reply) replies plan → Leads (.ask prompt next) ((prompt, reply) :: replies) plan

variable {d : Dialogue} {prompt : Prompt} {next : String → Dialogue}
  {replies : List (Prompt × String)} {plan plan' : Plan} {p : Prompter} {asked : List Prompt}

@[simp]
theorem leads_finish_iff : Leads (.finish plan) replies plan' ↔ replies = [] ∧ plan' = plan := by
  constructor
  · rintro ⟨⟩
    exact ⟨rfl, rfl⟩
  · rintro ⟨rfl, rfl⟩
    exact .finish plan'

theorem leads_ask_iff :
    Leads (.ask prompt next) replies plan ↔
      ∃ reply rest, replies = (prompt, reply) :: rest ∧ Leads (next reply) rest plan := by
  constructor
  · rintro ⟨⟩
    next reply rest leads => exact ⟨reply, rest, rfl, leads⟩
  · rintro ⟨reply, rest, rfl, leads⟩
    exact .ask leads

theorem run_of_leads (leads : d.Leads replies plan) (gives : p.Gives asked replies) :
    d.run p asked = (plan, asked ++ replies.map Prod.fst) := by
  induction leads generalizing asked with
  | finish plan => simp [run]
  | ask leads ih =>
    obtain ⟨answer, gives⟩ := gives
    rw [run, answer]
    simp [ih gives]

theorem exists_leads (d : Dialogue) (p : Prompter) (asked : List Prompt) :
    (d.run p asked).1 = .cancel ∨
      ∃ replies, d.Leads replies (d.run p asked).1 ∧ p.Gives asked replies := by
  induction d generalizing asked with
  | finish plan => exact .inr ⟨[], .finish plan, trivial⟩
  | ask prompt next ih =>
    rw [run]
    cases answer : p.answer asked prompt with
    | none => exact .inl rfl
    | some reply =>
      refine (ih reply (asked ++ [prompt])).imp id ?_
      rintro ⟨replies, leads, gives⟩
      exact ⟨(prompt, reply) :: replies, .ask leads, answer, gives⟩

end Dialogue

/-! What the replies settle -/

/-- What is known about a new file when all questions are answered. -/
structure Choices where
  workspace : String
  document : Document
  language : Scaffold.Language
  /-- The entity to start from. -/
  source : EntityKind × EntityToken
  target : String
  directory : String
  extension : Option String

namespace Choices

variable (c : Choices) (s : Session) (mode : Scaffold.Mode)

def fileName : String := c.language.documentName c.target mode c.extension

/-- The directory that the new file goes into. -/
def place : String := Session.directoryOf c.workspace c.directory

def path : String := Path.join c.place (c.fileName mode)

/-- The text for the new file. -/
def text : String :=
  Scaffold.render (c.language.generate c.target c.source.2 c.source.1 mode {
    strict := s.tree.strict = some true
    space := none
    sourceSpace := s.tree.space
    extension := c.extension
    spaceWord := (s.config.language c.document.language).spaceWord })

theorem planFor_eq :
    s.planFor c.language c.document c.workspace mode c.source c.target c.directory c.extension =
      .create c.place (c.path mode) (c.text s mode) := rfl

/-- The lines of the new file. -/
def lines : List String :=
  c.language.lines c.target c.source.2 c.source.1 mode {
    strict := s.tree.strict = some true
    space := none
    sourceSpace := s.tree.space
    extension := c.extension
    spaceWord := (s.config.language c.document.language).spaceWord }

theorem text_eq :
    c.text s mode = String.join ((c.lines s mode).map (· ++ "\n")) :=
  Scaffold.Language.render_generate ..

end Choices

namespace Session

variable {s : Session} {mode : Scaffold.Mode} {selection : Option String} {isInteractive : Bool}
  {source : EntityKind × EntityToken} {replies : List (Prompt × String)}
  {directory path text : String}

/-- The entity to start from: the one with the selected label, the only one, or the one that
is picked by its name among several. -/
inductive Selects (s : Session) (isInteractive : Bool) (source : EntityKind × EntityToken) :
    Option String → List (Prompt × String) → Prop
  | label {label : String} :
      s.named? (s.markers.strip (Text.trim label)) = some source →
      Selects s isInteractive source (some label) []
  | only : s.tree.entities = [source] → Selects s isInteractive source none []
  | picked {choice : String} : 2 ≤ s.tree.entities.length → isInteractive = true →
      s.named? choice = some source →
      Selects s isInteractive source none
        [(entityPrompt (s.tree.entities.map (·.2.name)), choice)]

/-- The choices are those that the session and the replies make. -/
structure Makes (s : Session) (mode : Scaffold.Mode) (selection : Option String)
    (isInteractive : Bool) (replies : List (Prompt × String)) (c : Choices) : Prop where
  workspace : s.workspace = some c.workspace
  document : s.active = some c.document
  language : Scaffold.Language.ofId? c.document.language = some c.language
  named : (Name.splitTarget c.target c.language.separator none).1.isEmpty = false
  extension : c.extension.isSome = !(c.language.extensions mode).isEmpty
  replies : ∃ first name, Selects s isInteractive c.source selection first ∧
    c.target = Text.trim name ∧
    replies = first ++
      [(namePrompt (Name.simple c.source.2.name c.language.separator), name),
       (directoryPrompt, c.directory)] ++
      c.extension.toList.map (extensionPrompt (c.language.extensions mode), ·)

private theorem selects_of_leads {d : Document} {next : EntityKind × EntityToken → Dialogue}
    (leads : (s.chooseEntity d selection isInteractive next).Leads replies
      (.create directory path text)) :
    ∃ source first rest, Selects s isInteractive source selection first ∧
      replies = first ++ rest ∧ (next source).Leads rest (.create directory path text) := by
  unfold chooseEntity at leads
  cases entities : s.tree.entities with
  | nil => simp [entities] at leads
  | cons source others =>
    cases selection with
    | some label =>
      simp only [entities] at leads
      split at leads
      · next source found => exact ⟨source, [], replies, .label found, rfl, leads⟩
      · simp at leads
    | none =>
      cases others with
      | nil =>
        simp only [entities] at leads
        exact ⟨source, [], replies, .only entities, rfl, leads⟩
      | cons other others =>
        simp only [entities] at leads
        split at leads
        · next interactive =>
          obtain ⟨choice, rest, rfl, answered⟩ := Dialogue.leads_ask_iff.1 leads
          split at answered
          · next source found =>
            rw [← entities]
            exact ⟨source, _, rest, .picked (by simp [entities]) interactive found, rfl, answered⟩
          · simp at answered
        · simp at leads

private theorem leads_of_selects {d : Document} {next : EntityKind × EntityToken → Dialogue}
    {first rest : List (Prompt × String)} {plan : Plan}
    (selects : Selects s isInteractive source selection first)
    (leads : (next source).Leads rest plan) :
    (s.chooseEntity d selection isInteractive next).Leads (first ++ rest) plan := by
  unfold chooseEntity
  cases entities : s.tree.entities with
  | nil => 
    cases selects with
    | label found => simp [named?, entities] at found
    | only one => simp [entities] at one
    | picked several => simp [entities] at several
  | cons source others =>
    cases selects with
    | label found => simpa [found] using leads
    | only one =>
      obtain ⟨rfl, rfl⟩ := List.cons.inj (entities.symm.trans one)
      exact leads
    | picked several interactive found =>
      cases others with
      | nil => simp [entities] at several
      | cons other others =>
        simp only [interactive, if_true, entities]
        exact .ask (by rw [found]; exact leads)

private theorem askExtension_leads_iff (extensions : List String) (plan : Option String → Plan)
    (plan' : Plan) :
    (askExtension extensions (fun extension => .finish (plan extension))).Leads replies plan' ↔
      ∃ extension : Option String, extension.isSome = !extensions.isEmpty ∧
        replies = extension.toList.map (extensionPrompt extensions, ·) ∧
        plan' = plan extension := by
  unfold askExtension
  split
  · next fixed => simp [fixed, Option.isSome_eq_false_iff]
  · next offered =>
    rw [Dialogue.leads_ask_iff]
    constructor
    · rintro ⟨extension, rest, rfl, leads⟩
      obtain ⟨rfl, rfl⟩ := Dialogue.leads_finish_iff.1 leads
      exact ⟨some extension, by simpa using offered, rfl, rfl⟩
    · rintro ⟨extension, picked, rfl, rfl⟩
      obtain ⟨extension, rfl⟩ := Option.isSome_iff_exists.1 (picked.trans (by simp [offered]))
      exact ⟨extension, [], rfl, .finish _⟩

private theorem askDetails_leads_iff (l : Scaffold.Language) (d : Document) (workspace : String) :
    (s.askDetails l d workspace mode source).Leads replies (.create directory path text) ↔
      ∃ name reply extension,
        (Name.splitTarget (Text.trim name) l.separator none).1.isEmpty = false ∧
        extension.isSome = !(l.extensions mode).isEmpty ∧
        replies = (namePrompt (Name.simple source.2.name l.separator), name) ::
          (directoryPrompt, reply) ::
          extension.toList.map (extensionPrompt (l.extensions mode), ·) ∧
        .create directory path text =
          s.planFor l d workspace mode source (Text.trim name) reply extension := by
  unfold askDetails
  rw [Dialogue.leads_ask_iff]
  constructor
  · rintro ⟨name, rest, rfl, leads⟩
    simp only at leads
    split at leads
    · simp at leads
    · next named =>
      obtain ⟨reply, rest, rfl, further⟩ := Dialogue.leads_ask_iff.1 leads
      obtain ⟨extension, picked, rfl, planned⟩ := (askExtension_leads_iff _ _ _).1 further
      exact ⟨name, reply, extension, by simpa using named, picked, rfl, planned⟩
  · rintro ⟨name, reply, extension, named, picked, rfl, planned⟩
    refine ⟨name, _, rfl, ?_⟩
    simp only [named]
    exact .ask ((askExtension_leads_iff _ _ _).2 ⟨extension, picked, rfl, planned⟩)

theorem dialogue_leads_iff (s : Session) (mode : Scaffold.Mode) (selection : Option String)
    (isInteractive : Bool) (replies : List (Prompt × String)) (directory path text : String) :
    (s.dialogue mode selection isInteractive).Leads replies (.create directory path text) ↔
      ∃ c : Choices, s.Makes mode selection isInteractive replies c ∧
        directory = c.place ∧ path = c.path mode ∧ text = c.text s mode := by
  unfold dialogue
  constructor
  · intro leads
    split at leads
    · simp at leads
    · simp at leads
    · next workspace d here active =>
      split at leads
      · simp at leads
      · next l language =>
        obtain ⟨source, first, rest, selects, rfl, details⟩ := selects_of_leads leads
        obtain ⟨name, reply, extension, named, picked, rfl, planned⟩ :=
          (askDetails_leads_iff l d workspace).1 details
        let c : Choices := ⟨workspace, d, l, source, Text.trim name, reply, extension⟩
        obtain ⟨place, path, text⟩ := Plan.create.inj (planned.trans (c.planFor_eq s mode))
        refine ⟨c, ⟨here, active, language, named, picked, first, name, selects, rfl, ?_⟩, place,
          path, text⟩
        rw [List.append_assoc]
        rfl
  · rintro ⟨c, makes, place, whole, content⟩
    obtain ⟨first, name, selects, target, given⟩ := makes.replies
    have named := makes.named
    rw [target] at named
    rw [place, whole, content, given, List.append_assoc, makes.workspace, makes.document]
    simp only [makes.language]
    refine leads_of_selects selects ((askDetails_leads_iff _ _ _).2
      ⟨name, c.directory, c.extension, named, makes.extension, rfl, ?_⟩)
    rw [← target, c.planFor_eq]

end Session

end CodeOutline
