import CodeOutline.Proofs.Registry.Slots
import CodeOutline.Session

/-!
The tree that a session shows, told from what happened in the editor. A history keeps the
documents of the refreshing events, the latest one first: those events that were not ignored
and whose document had no unsaved changes. The tree shown is the latest one that the analyzer
of the first of these documents made from any of them. It need not belong to the active
document: unsaved changes and a document that is not well formed leave an older tree in place.
-/

set_option autoImplicit false

namespace CodeOutline

namespace Event

def offered? (c : Config) : Event → Option Document
  | .focus d => some d
  | .save d hasErrors => if hasErrors && !c.updateOnError then none else some d
  | .visible ds => ds.head?
  | .pin _ => none

def isSave : Event → Bool
  | .save _ _ => true
  | _ => false

/-- The document that an event makes active, none for an event that is ignored. While a
document is pinned only saves of its file count. -/
def accepted? (c : Config) (active : Option Document) (isPinned : Bool) (e : Event) :
    Option Document :=
  (e.offered? c).filter (fun d => !isPinned || (e.isSave && active.any (·.file == d.file)))

end Event

/-- What past events come to. -/
structure History where
  active : Option Document := none
  isPinned : Bool := false
  /-- The documents of the refreshing events, the latest first. -/
  refreshing : List Document := []

namespace History

def add (c : Config) (h : History) : Event → History
  | .pin isPinned => { h with isPinned := isPinned && h.active.isSome }
  | e =>
    match e.accepted? c h.active h.isPinned with
    | none => h
    | some d =>
      { h with active := some d, refreshing := if d.dirty then h.refreshing else d :: h.refreshing }

/-- The history of events in the order in which they happened. -/
def of (c : Config) (events : List Event) : History := events.foldl (add c) {}

theorem add_of_ignored {c : Config} {h : History} {e : Event}
    (ignored : e.accepted? c h.active h.isPinned = none) (notPin : ∀ b, e ≠ .pin b) :
    h.add c e = h := by
  cases e with
  | pin b => exact absurd rfl (notPin b)
  | focus | save | visible => simp only [add, ignored]

theorem add_of_accepted {c : Config} {h : History} {e : Event} {d : Document}
    (accepted : e.accepted? c h.active h.isPinned = some d) :
    h.add c e = { h with
      active := some d
      refreshing := if d.dirty then h.refreshing else d :: h.refreshing } := by
  cases e with
  | pin b => simp [Event.accepted?, Event.offered?] at accepted
  | focus | save | visible => simp only [add, accepted]

private def Settled (h : History) : Prop :=
  ∀ a, h.active = some a → a.dirty = false → h.refreshing.head? = some a

private theorem Settled.add {c : Config} {h : History} (settled : Settled h) (e : Event) :
    Settled (h.add c e) := by
  cases outcome : e.accepted? c h.active h.isPinned with
  | none =>
    cases e with
    | pin b => exact settled
    | focus | save | visible => rwa [add_of_ignored outcome (by simp)]
  | some d =>
    rw [add_of_accepted outcome]
    intro a active clean
    obtain rfl : d = a := Option.some.inj active
    simp [clean]

private theorem settled_of (c : Config) (events : List Event) : Settled (of c events) := by
  have general : ∀ h, Settled h → Settled (events.foldl (add c) h) := by
    induction events with
    | nil => exact fun h settled => settled
    | cons e events ih => exact fun h settled => ih (h.add c e) (settled.add e)
  exact general {} (by simp [Settled])

end History

namespace Config

/-- The latest tree that the analyzer made from the documents, the latest of them first. -/
def latestTree (c : Config) (a : Analyzer) (ds : List Document) : TokenTree :=
  (ds.findSome? (fun d =>
    if c.analyzerFor? d = some a then (a.analyze d c).toOption else none)).getD .empty

/-- The tree that is shown after refreshing events with the documents, the latest first. -/
def shownTree (c : Config) : List Document → TokenTree
  | [] => .empty
  | d :: ds =>
    match c.analyzerFor? d with
    | none => .empty
    | some a => c.latestTree a (d :: ds)

section LatestTree

variable {c : Config} {a : Analyzer} {d : Document} (ds : List Document)

private theorem latestTree_cons_of_other (other : c.analyzerFor? d ≠ some a) :
    c.latestTree a (d :: ds) = c.latestTree a ds := by
  simp only [latestTree, List.findSome?_cons, if_neg other]

private theorem latestTree_cons_of_ok {t : TokenTree} (claimed : c.analyzerFor? d = some a)
    (analyzed : a.analyze d c = .ok t) : c.latestTree a (d :: ds) = t := by
  simp only [latestTree, List.findSome?_cons, if_pos claimed, analyzed, Except.toOption,
    Option.getD_some]

private theorem latestTree_cons_of_error {f : Failure} (claimed : c.analyzerFor? d = some a)
    (failed : a.analyze d c = .error f) : c.latestTree a (d :: ds) = c.latestTree a ds := by
  simp only [latestTree, List.findSome?_cons, if_pos claimed, failed, Except.toOption]

end LatestTree

private theorem shownTree_source (c : Config) (ds : List Document) :
    c.shownTree ds = .empty ∨
      ∃ latest z d, ds.head? = some latest ∧ c.analyzerFor? latest = some z ∧ d ∈ ds ∧
        c.analyzerFor? d = some z ∧ z.analyze d c = .ok (c.shownTree ds) ∧
        (d = latest ∨ ∃ f, z.analyze latest c = .error f) := by
  cases ds with
  | nil => exact Or.inl rfl
  | cons latest ds =>
    cases claim : c.analyzerFor? latest with
    | none => exact Or.inl (by simp only [shownTree, claim])
    | some z =>
      cases answer : z.analyze latest c with
      | ok t =>
        refine Or.inr ⟨latest, z, latest, rfl, claim, List.mem_cons_self, claim, ?_, Or.inl rfl⟩
        simp only [shownTree, claim, latestTree_cons_of_ok ds claim answer, answer]
      | error f =>
        have older : c.shownTree (latest :: ds) = c.latestTree z ds := by
          simp only [shownTree, claim, latestTree_cons_of_error ds claim answer]
        rw [older]
        cases found : ds.findSome? (fun d =>
            if c.analyzerFor? d = some z then (z.analyze d c).toOption else none) with
        | none => exact Or.inl (by simp only [latestTree, found, Option.getD_none])
        | some t =>
          obtain ⟨d, member, made⟩ := List.exists_of_findSome?_eq_some found
          split at made
          · next taken =>
            have analyzed : z.analyze d c = .ok t := by
              cases result : z.analyze d c <;> simp_all [Except.toOption]
            refine Or.inr ⟨latest, z, d, rfl, claim, List.mem_cons_of_mem _ member, taken, ?_,
              Or.inr ⟨f, answer⟩⟩
            simp only [latestTree, found, Option.getD_some, analyzed]
          · simp at made

private def registryAfter (c : Config) (ds : List Document) : Registry :=
  .holding c.analyzers (fun a => c.latestTree a ds)

private theorem tokenTree_registryAfter (c : Config) (d : Document) (ds : List Document) :
    (c.registryAfter ds).tokenTree d c = (c.shownTree (d :: ds), c.registryAfter (d :: ds)) := by
  cases claim : c.analyzerFor? d with
  | none =>
    have same : (fun a => c.latestTree a (d :: ds)) = fun a => c.latestTree a ds :=
      funext (fun a => latestTree_cons_of_other ds (by simp [claim]))
    simp only [registryAfter, same, shownTree, claim, Registry.tokenTree_holding_of_none _ claim]
  | some a =>
    cases answer : a.analyze d c with
    | ok t =>
      have changed : Function.update (fun b => c.latestTree b ds) a t =
          fun b => c.latestTree b (d :: ds) := by
        funext b
        by_cases same : b = a
        · rw [same, Function.update_self, latestTree_cons_of_ok ds claim answer]
        · rw [Function.update_of_ne same, latestTree_cons_of_other ds]
          exact fun twice => same (Option.some.inj (twice.symm.trans claim))
      simp only [registryAfter, shownTree, claim, latestTree_cons_of_ok ds claim answer,
        Registry.tokenTree_holding_of_ok _ c.analyzers_nodup claim answer, changed]
    | error f =>
      have same : (fun b => c.latestTree b (d :: ds)) = fun b => c.latestTree b ds := by
        funext b
        by_cases mine : b = a
        · rw [mine, latestTree_cons_of_error ds claim answer]
        · refine latestTree_cons_of_other ds ?_
          exact fun twice => mine (Option.some.inj (twice.symm.trans claim))
      simp only [registryAfter, shownTree, claim, latestTree_cons_of_error ds claim answer, same,
        Registry.tokenTree_holding_of_error _ claim answer]

end Config

namespace Session

theorem handle_cases (s : Session) (e : Event) :
    (∃ b, e = .pin b ∧ s.handle e = (false, s.pin b)) ∨
    ((∀ b, e ≠ .pin b) ∧ e.accepted? s.config s.active s.isPinned = none ∧
      s.handle e = (false, s)) ∨
    (∃ d, e.accepted? s.config s.active s.isPinned = some d ∧ s.handle e = s.activate d) := by
  cases e with
  | pin b => exact Or.inl ⟨b, rfl, rfl⟩
  | focus d =>
    right
    cases pinned : s.isPinned with
    | true =>
      exact Or.inl (by simp [Event.accepted?, Event.offered?, Event.isSave, handle, focus, pinned])
    | false => exact Or.inr ⟨d, by simp [Event.accepted?, Event.offered?, handle, focus, pinned]⟩
  | save d hasErrors =>
    right
    by_cases stopped : (hasErrors && !s.config.updateOnError) = true
    · exact Or.inl (by simp [Event.accepted?, Event.offered?, handle, save, stopped])
    · by_cases elsewhere : (s.isPinned && !s.active.any (·.sameFile d)) = true
      · refine Or.inl ⟨by simp, ?_, by simp only [handle, save, if_neg stopped, if_pos elsewhere]⟩
        simp only [Event.accepted?, Event.offered?, if_neg stopped]
        simpa [Document.sameFile, Option.filter, Event.isSave] using elsewhere
      · refine Or.inr ⟨d, ?_, by simp only [handle, save, if_neg stopped, if_neg elsewhere]⟩
        simp only [Event.accepted?, Event.offered?, if_neg stopped]
        simpa [Document.sameFile, Option.filter, Event.isSave] using elsewhere
  | visible ds =>
    right
    cases ds with
    | nil => exact Or.inl (by simp [Event.accepted?, Event.offered?, handle, visible])
    | cons d ds =>
      cases pinned : s.isPinned with
      | true =>
        exact Or.inl (by simp [Event.accepted?, Event.offered?, Event.isSave, handle, visible, pinned])
      | false =>
        exact Or.inr ⟨d, by simp [Event.accepted?, Event.offered?, handle, visible, pinned]⟩

theorem run_append (s : Session) (events later : List Event) :
    s.run (events ++ later) = (s.run events).run later := List.foldl_append

@[simp] theorem activate_active (s : Session) (d : Document) : (s.activate d).2.active = some d := by
  unfold activate
  split <;> rfl

@[simp] theorem activate_isPinned (s : Session) (d : Document) :
    (s.activate d).2.isPinned = s.isPinned := by
  unfold activate
  split <;> rfl

private structure Follows (c : Config) (h : History) (s : Session) : Prop where
  config : s.config = c
  active : s.active = h.active
  isPinned : s.isPinned = h.isPinned
  registry : s.registry = c.registryAfter h.refreshing
  tree : s.tree = c.shownTree h.refreshing

private theorem start_follows (c : Config) (workspace : Option String) :
    Follows c {} (start c workspace) where
  config := rfl
  active := rfl
  isPinned := rfl
  registry := Registry.ofConfig_eq_holding c
  tree := rfl

private theorem Follows.activate {c : Config} {h : History} {s : Session}
    (follows : Follows c h s) (d : Document) :
    Follows c { h with
      active := some d
      refreshing := if d.dirty then h.refreshing else d :: h.refreshing } (s.activate d).2 := by
  obtain ⟨config, -, isPinned, registry, tree⟩ := follows
  cases unsaved : d.dirty with
  | true =>
    simp only [Session.activate, unsaved, if_true]
    exact ⟨config, rfl, isPinned, registry, tree⟩
  | false =>
    have looked : s.registry.tokenTree d s.config =
        (c.shownTree (d :: h.refreshing), c.registryAfter (d :: h.refreshing)) := by
      rw [registry, config]
      exact c.tokenTree_registryAfter d h.refreshing
    simp only [Session.activate, unsaved, looked, Bool.false_eq_true, if_false]
    exact ⟨config, rfl, isPinned, rfl, rfl⟩

private theorem Follows.handle {c : Config} {h : History} {s : Session}
    (follows : Follows c h s) (e : Event) : Follows c (h.add c e) (s.handle e).2 := by
  rcases s.handle_cases e with ⟨b, rfl, handled⟩ | ⟨notPin, ignored, handled⟩ | ⟨d, accepted, handled⟩
  · rw [handled]
    obtain ⟨config, active, -, registry, tree⟩ := follows
    exact ⟨config, active, by simp [pin, History.add, active], registry, tree⟩
  · rw [follows.config, follows.active, follows.isPinned] at ignored
    rw [handled, History.add_of_ignored ignored notPin]
    exact follows
  · rw [follows.config, follows.active, follows.isPinned] at accepted
    rw [handled, History.add_of_accepted accepted]
    exact follows.activate d

private theorem Follows.run {c : Config} {h : History} {s : Session} (follows : Follows c h s)
    (events : List Event) : Follows c (events.foldl (History.add c) h) (s.run events) := by
  induction events generalizing h s with
  | nil => exact follows
  | cons e events ih => exact ih (follows.handle e)

private theorem run_follows (c : Config) (workspace : Option String) (events : List Event) :
    Follows c (.of c events) ((start c workspace).run events) :=
  (start_follows c workspace).run events

theorem run_config (c : Config) (workspace : Option String) (events : List Event) :
    ((start c workspace).run events).config = c := (run_follows c workspace events).config

/-- The tree shown is a function of the history. Without a refreshing event it is empty, and
so it is when no analyzer in use takes the document of the last one. Otherwise it is the
latest tree that the same analyzer made in a refreshing event, empty if it made none. -/
theorem tree_eq_shownTree (c : Config) (workspace : Option String) (events : List Event) :
    ((start c workspace).run events).tree = c.shownTree (History.of c events).refreshing :=
  (run_follows c workspace events).tree

theorem tree_empty_or_analyzed (c : Config) (workspace : Option String) (events : List Event) :
    ((start c workspace).run events).tree = .empty ∨
      ∃ (z : Analyzer) (d : Document), z.analyze d c = .ok ((start c workspace).run events).tree := by
  rw [(run_follows c workspace events).tree]
  refine (c.shownTree_source _).imp id ?_
  rintro ⟨-, z, d, -, -, -, -, made, -⟩
  exact ⟨z, d, made⟩

theorem tree_of_focus {c : Config} (workspace : Option String) {d : Document} {z : Analyzer}
    {t : TokenTree} (clean : d.dirty = false) (claim : c.analyzerFor? d = some z)
    (analyzed : z.analyze d c = .ok t) : ((start c workspace).run [.focus d]).tree = t := by
  have history : (History.of c [.focus d]).refreshing = [d] := by
    simp [History.of, History.add, Event.accepted?, Event.offered?, Option.filter, clean]
  rw [(run_follows c workspace [.focus d]).tree, history]
  simp only [Config.shownTree, claim, Config.latestTree_cons_of_ok [] claim analyzed]

/-- The tree shown is empty, or a refreshing event with a document of the active file made it. -/
def ShowsActiveFile (c : Config) (events : List Event) (s : Session) : Prop :=
  ∀ a, s.active = some a → s.tree = .empty ∨
    ∃ d ∈ (History.of c events).refreshing, d.file = a.file ∧
      ∃ z, c.analyzerFor? d = some z ∧ z.analyze d c = .ok s.tree

def openSheet : Document := { language := "less", file := "a.less", text := "@a:b;" }

def unsavedSheet : Document := { language := "less", file := "b.less", text := "", dirty := true }

def brokenSheet : Document := { language := "less", file := "b.less", text := "\x7b" }

def unsavedEvents : List Event := [.focus openSheet, .focus unsavedSheet]

def brokenEvents : List Event := [.focus openSheet, .focus brokenSheet]

private theorem ne_empty_of_isEmpty {t : TokenTree} (filled : t.isEmpty = false) : t ≠ .empty := by
  rintro rfl
  simp [TokenTree.isEmpty, TokenTree.empty, OrderedMap.isEmpty, OrderedMap.empty] at filled

private theorem brokenEvents_tree_ne_empty : ((start {} none).run brokenEvents).tree ≠ .empty :=
  ne_empty_of_isEmpty (by decide +kernel)

private theorem eq_openSheet_of_made {d : Document} {z : Analyzer} {t : TokenTree}
    (member : d ∈ (History.of {} brokenEvents).refreshing)
    (claim : Config.analyzerFor? {} d = some z) (made : z.analyze d {} = .ok t) :
    d = openSheet := by
  have both : (History.of {} brokenEvents).refreshing = [brokenSheet, openSheet] := by
    decide +kernel
  rw [both] at member
  rcases List.mem_cons.1 member with rfl | older
  · have less : Config.analyzerFor? {} brokenSheet = some .less := by decide +kernel
    obtain rfl := Option.some.inj (less.symm.trans claim)
    have failed : (Analyzer.less.analyze brokenSheet {}).toOption.isNone = true := by
      decide +kernel
    simp [made, Except.toOption] at failed
  · exact List.mem_singleton.1 older

/-- The tree of a file stays when another file becomes active with unsaved changes, and when
another file of the same analyzer is not well formed. -/
theorem tree_of_another_file :
    ¬ ShowsActiveFile {} unsavedEvents ((start {} none).run unsavedEvents) ∧
    ¬ ShowsActiveFile {} brokenEvents ((start {} none).run brokenEvents) := by
  constructor
  · intro shows
    rcases shows unsavedSheet (by decide +kernel) with empty | ⟨d, member, file, -⟩
    · exact ne_empty_of_isEmpty (by decide +kernel) empty
    · have only : (History.of {} unsavedEvents).refreshing = [openSheet] := by decide +kernel
      rw [only] at member
      obtain rfl := List.mem_singleton.1 member
      exact absurd file (by decide +kernel)
  · intro shows
    rcases shows brokenSheet (by decide +kernel) with empty | ⟨d, member, file, z, claim, made⟩
    · exact brokenEvents_tree_ne_empty empty
    · obtain rfl := eq_openSheet_of_made member claim made
      exact absurd file (by decide +kernel)

/-- The tree shown is empty or was made from a document with the name of the active one, unless
the last refreshing event was about another file, which leaves the active document with unsaved
changes, or its document was not well formed. In either case the tree comes from a document of
an earlier refreshing event. -/
theorem tree_source (c : Config) (workspace : Option String) (events : List Event) (a : Document)
    (active : ((start c workspace).run events).active = some a) :
    let s := (start c workspace).run events
    let ds := (History.of c events).refreshing
    s.tree = .empty ∨
      ∃ d ∈ ds, ∃ z, c.analyzerFor? d = some z ∧ z.analyze d c = .ok s.tree ∧
        (d.file = a.file ∨
          ∃ latest, ds.head? = some latest ∧ c.analyzerFor? latest = some z ∧
            (a.dirty = false → latest = a) ∧
            (latest.file ≠ a.file ∨ ∃ f, z.analyze latest c = .error f)) := by
  intro s ds
  have follows : Follows c (.of c events) s := run_follows c workspace events
  have shown : s.tree = c.shownTree ds := follows.tree
  rw [shown]
  rcases c.shownTree_source ds with empty | ⟨latest, z, d, head, claim, member, taken, made, origin⟩
  · exact Or.inl empty
  · refine Or.inr ⟨d, member, z, taken, made, ?_⟩
    have settled : a.dirty = false → latest = a := fun clean =>
      Option.some.inj (head.symm.trans
        (History.settled_of c events a (follows.active.symm.trans active) clean))
    by_cases same : d.file = a.file
    · exact Or.inl same
    · refine Or.inr ⟨latest, head, claim, settled, ?_⟩
      rcases origin with rfl | failed
      · exact Or.inl same
      · exact Or.inr failed

/-- A file that is not well formed is shown with the tree of the file before it. -/
theorem tree_source_brokenEvents :
    ((start {} none).run brokenEvents).active = some brokenSheet ∧
      ∃ z : Analyzer, z.analyze openSheet {} = .ok ((start {} none).run brokenEvents).tree := by
  have active : ((start {} none).run brokenEvents).active = some brokenSheet := by
    decide +kernel
  refine ⟨active, ?_⟩
  rcases tree_source {} none brokenEvents brokenSheet active with
    empty | ⟨d, member, z, claim, made, -⟩
  · exact absurd empty brokenEvents_tree_ne_empty
  · obtain rfl := eq_openSheet_of_made member claim made
    exact ⟨z, made⟩

end Session

end CodeOutline

/-!
The pin of a session. A pinned session has an active document, and until it is released its
file stays the active one: only saves of that file change anything, and only those without
unsaved changes and without forbidding errors change the tree.
-/

namespace CodeOutline.Session

private def PinHeld (s : Session) : Prop := s.isPinned = true → s.active.isSome = true

private theorem pinHeld_handle {s : Session} (held : PinHeld s) (e : Event) :
    PinHeld (s.handle e).2 := by
  intro pinned
  rcases s.handle_cases e with ⟨b, -, handled⟩ | ⟨-, -, handled⟩ | ⟨d, -, handled⟩
  · rw [handled] at pinned ⊢
    exact (Bool.and_eq_true_iff.1 pinned).2
  · rw [handled] at pinned ⊢
    exact held pinned
  · rw [handled, activate_active]
    rfl

private theorem pinHeld_run {s : Session} (held : PinHeld s) (events : List Event) :
    PinHeld (s.run events) := by
  induction events generalizing s with
  | nil => exact held
  | cons e events ih => exact ih (pinHeld_handle held e)

theorem exists_active_of_isPinned {c : Config} {workspace : Option String} {events : List Event}
    (pinned : ((start c workspace).run events).isPinned = true) :
    ∃ a, ((start c workspace).run events).active = some a := by
  have initial : PinHeld (start c workspace) := fun impossible => by cases impossible
  exact Option.isSome_iff_exists.1 (pinHeld_run initial events pinned)

structure PinnedTo (file : String) (s : Session) : Prop where
  isPinned : s.isPinned = true
  active : ∃ a, s.active = some a ∧ a.file = file

namespace PinnedTo

variable {file : String} {s : Session}

theorem accepted (pinned : PinnedTo file s) {e : Event} {d : Document}
    (accepted : e.accepted? s.config s.active s.isPinned = some d) :
    ∃ hasErrors, e = .save d hasErrors ∧ d.file = file ∧
      (hasErrors = true → s.config.updateOnError = true) := by
  obtain ⟨isPinned, a, active, same⟩ := pinned
  simp only [Event.accepted?, isPinned, active, Option.filter_eq_some_iff, Option.any_some,
    Bool.not_true, Bool.false_or, Bool.and_eq_true, beq_iff_eq] at accepted
  obtain ⟨offered, saves, file⟩ := accepted
  cases e with
  | save d' hasErrors =>
    simp only [Event.offered?] at offered
    split at offered
    · cases offered
    · next allowed =>
      obtain rfl := Option.some.inj offered
      exact ⟨hasErrors, rfl, file.symm.trans same, by simpa using allowed⟩
  | focus | visible | pin => cases saves

theorem handle_eq (pinned : PinnedTo file s) {e : Event} (notPin : ∀ b, e ≠ .pin b)
    (notSave : ∀ d hasErrors, e = .save d hasErrors → d.file ≠ file) :
    s.handle e = (false, s) := by
  rcases s.handle_cases e with ⟨b, same, -⟩ | ⟨-, -, handled⟩ | ⟨d, took, -⟩
  · exact absurd same (notPin b)
  · exact handled
  · obtain ⟨hasErrors, same, here, -⟩ := pinned.accepted took
    exact absurd here (notSave d hasErrors same)

theorem handle (pinned : PinnedTo file s) {e : Event} (kept : e ≠ .pin false) :
    PinnedTo file (s.handle e).2 := by
  rcases s.handle_cases e with ⟨b, rfl, handled⟩ | ⟨-, -, handled⟩ | ⟨d, took, handled⟩
  · obtain ⟨-, a, active, same⟩ := pinned
    have set : b = true := by simpa using kept
    rw [handled]
    exact ⟨by simp [pin, set, active], a, active, same⟩
  · rw [handled]
    exact pinned
  · obtain ⟨-, -, here, -⟩ := pinned.accepted took
    rw [handled]
    exact ⟨by rw [activate_isPinned, pinned.isPinned], d, activate_active s d, here⟩

theorem run (pinned : PinnedTo file s) {later : List Event} (kept : .pin false ∉ later) :
    PinnedTo file (s.run later) := by
  induction later generalizing s with
  | nil => exact pinned
  | cons e later ih =>
    rw [List.mem_cons, not_or] at kept
    exact ih (pinned.handle (Ne.symm kept.1)) kept.2

theorem tree_changes (pinned : PinnedTo file s) {e : Event}
    (changes : (s.handle e).2.tree ≠ s.tree) :
    ∃ d hasErrors, e = .save d hasErrors ∧ d.file = file ∧ d.dirty = false ∧
      (hasErrors = true → s.config.updateOnError = true) := by
  rcases s.handle_cases e with ⟨b, -, handled⟩ | ⟨-, -, handled⟩ | ⟨d, took, handled⟩
  · exact absurd (by rw [handled]; rfl) changes
  · exact absurd (by rw [handled]) changes
  · obtain ⟨hasErrors, same, here, allowed⟩ := pinned.accepted took
    refine ⟨d, hasErrors, same, here, ?_, allowed⟩
    cases unsaved : d.dirty with
    | false => rfl
    | true => exact absurd (by rw [handled]; simp [activate, unsaved]) changes

end PinnedTo

/-- A pinned session has an active document. Until the pin is taken away it stays pinned to
the same file, the documents of other files change nothing, and the tree changes only when
the file is saved without unsaved changes and without errors that forbid it. -/
theorem pin_stable (c : Config) (workspace : Option String) (events later : List Event)
    (pinned : ((start c workspace).run events).isPinned = true) (kept : .pin false ∉ later) :
    let s := (start c workspace).run events
    let s' := s.run later
    ∃ a, s.active = some a ∧
      (s'.isPinned = true ∧ ∃ a', s'.active = some a' ∧ a'.file = a.file) ∧
      (∀ d, s'.focus d = (false, s')) ∧
      (∀ ds, s'.visible ds = (false, s')) ∧
      (∀ d hasErrors, d.file ≠ a.file → s'.save d hasErrors = (false, s')) ∧
      (∀ e, (s'.handle e).2.tree ≠ s'.tree →
        ∃ d hasErrors, e = .save d hasErrors ∧ d.file = a.file ∧ d.dirty = false ∧
          (hasErrors = true → c.updateOnError = true)) := by
  intro s s'
  obtain ⟨a, active⟩ := exists_active_of_isPinned pinned
  have here : PinnedTo a.file s := ⟨pinned, a, active, rfl⟩
  have there : PinnedTo a.file s' := here.run kept
  have config : s'.config = c := by
    have whole := run_config c workspace (events ++ later)
    rwa [run_append] at whole
  refine ⟨a, active, ⟨there.isPinned, there.active⟩, ?_, ?_, ?_, ?_⟩
  · intro d
    exact there.handle_eq (e := .focus d) (by simp) (by simp)
  · intro ds
    exact there.handle_eq (e := .visible ds) (by simp) (by simp)
  · intro d hasErrors other
    refine there.handle_eq (e := .save d hasErrors) (by simp) ?_
    rintro d' errors same
    obtain ⟨rfl, -⟩ := Event.save.inj same
    exact other
  · intro e changes
    obtain ⟨d, hasErrors, same, file, clean, allowed⟩ := there.tree_changes changes
    exact ⟨d, hasErrors, same, file, clean, config ▸ allowed⟩

/-- With a style sheet pinned and saved, another one cannot be turned to. -/
theorem pin_stable_openSheet :
    ((start {} none).run [.focus openSheet, .pin true]).isPinned = true ∧
      .pin false ∉ [Event.save openSheet true, .pin true] ∧
      ∀ d, (((start {} none).run [.focus openSheet, .pin true]).run
          [.save openSheet true, .pin true]).focus d =
        (false, ((start {} none).run [.focus openSheet, .pin true]).run
          [.save openSheet true, .pin true]) := by
  have pinned : ((start {} none).run [.focus openSheet, .pin true]).isPinned = true := by
    decide +kernel
  have kept : .pin false ∉ [Event.save openSheet true, .pin true] := by simp
  obtain ⟨a, -, -, still, -⟩ := pin_stable {} none _ _ pinned kept
  exact ⟨pinned, kept, still⟩

end CodeOutline.Session
