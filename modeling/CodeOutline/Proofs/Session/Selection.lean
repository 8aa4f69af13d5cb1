import CodeOutline.Proofs.Analysis.Distinct
import CodeOutline.Proofs.Session.History
import CodeOutline.Proofs.Session.Replies
import CodeOutline.Proofs.Syntax.Scanning

/-!
What the label of a root node selects. A label is read back as a name: blanks around it and one
mark before it go. The name selects the first entity that has it, with interfaces before traits
and traits before classes.
-/

set_option autoImplicit false

namespace CodeOutline

namespace Text

theorem append_of_afterStart? {start s rest : String} (after : afterStart? start s = some rest) :
    start ++ rest = s := by
  obtain ⟨cs, drop, rfl⟩ := Option.map_eq_some_iff.1 after
  apply String.toList_injective
  rw [String.toList_append, String.toList_ofList, Syntax.Scan.append_of_dropStart? drop]

end Text

namespace Markers

/-- The mark that a label begins with, the read-only one if both do. -/
def leading (m : Markers) (label : String) : String :=
  if (Text.afterStart? m.isReadonly label).isSome then m.isReadonly
  else if (Text.afterStart? m.isAbstract label).isSome then m.isAbstract
  else ""

theorem leading_append_strip (m : Markers) (label : String) :
    m.leading label ++ m.strip label = label := by
  unfold leading strip
  cases isReadonly : Text.afterStart? m.isReadonly label with
  | some rest => exact Text.append_of_afterStart? isReadonly
  | none =>
    cases isAbstract : Text.afterStart? m.isAbstract label with
    | some rest => exact Text.append_of_afterStart? isAbstract
    | none => exact String.empty_append

end Markers

namespace Label

/-- The mark before the name of an entity. -/
def entityMark (m : Markers) : EntityKind → EntityToken → String
  | .class, e => m.mark e.isReadonly e.isAbstract
  | _, _ => ""

theorem entity_eq (m : Markers) (kind : EntityKind) (e : EntityToken) :
    entity m kind e = entityMark m kind e ++ e.name := by
  cases kind with
  | interface | trait => exact String.empty_append.symm
  | «class» => rfl

/-- The label of an entity has no blanks around it, and the mark that it begins with is the one
that it was given. -/
structure IsClear (m : Markers) (kind : EntityKind) (e : EntityToken) : Prop where
  trimmed : Text.trim (entity m kind e) = entity m kind e
  marked : m.leading (entity m kind e) = entityMark m kind e

theorem IsClear.strip_trim {m : Markers} {kind : EntityKind} {e : EntityToken}
    (clear : IsClear m kind e) : m.strip (Text.trim (entity m kind e)) = e.name := by
  have whole := m.leading_append_strip (entity m kind e)
  rw [clear.marked] at whole
  have both := whole.trans (entity_eq m kind e)
  rw [clear.trimmed]
  simpa [← String.toList_inj] using both

end Label

namespace EntityKind

/-- The kinds that are listed before this one. -/
def before (kind : EntityKind) : List EntityKind := all.takeWhile (· ≠ kind)

theorem eq_of_not_mem_before {k l : EntityKind} (left : k ∉ l.before) (right : l ∉ k.before) :
    k = l := by
  revert left right
  cases k <;> cases l <;> decide

end EntityKind

namespace TokenTree

variable {t : TokenTree} {name : String} {source : EntityKind × EntityToken}

theorem mem_entities_iff : source ∈ t.entities ↔ source.2 ∈ t.entitiesOf source.1 := by
  obtain ⟨kind, e⟩ := source
  cases kind <;> simp [entities, EntityKind.all]

private theorem find?_kinds {kinds : List EntityKind}
    (found : (kinds.flatMap (fun k => (t.entitiesOf k).map (fun e => (k, e)))).find?
      (fun (_, e) => e.name == name) = some source) :
    ∀ k ∈ kinds.takeWhile (· ≠ source.1), ∀ e ∈ t.entitiesOf k, e.name ≠ name := by
  induction kinds with
  | nil => simp
  | cons kind kinds ih =>
    rw [List.flatMap_cons, List.find?_append] at found
    cases here : ((t.entitiesOf kind).map (fun e => (kind, e))).find?
        (fun (_, e) => e.name == name) with
    | some first =>
      obtain rfl : first = source := by simpa [here] using found
      obtain ⟨e, -, rfl⟩ := List.mem_map.1 (List.mem_of_find?_eq_some here)
      simp
    | none =>
      have absent : ∀ e ∈ t.entitiesOf kind, e.name ≠ name := by simpa using here
      rw [here, Option.none_or] at found
      intro k member e
      rw [List.takeWhile_cons] at member
      split at member
      · rcases List.mem_cons.1 member with rfl | later
        · exact absent e
        · exact ih found k later e
      · cases member

/-- The entity at a place among those of its kind is the only one there with the name, and no
kind listed before has one. -/
structure IsFirstNamed (t : TokenTree) (name : String) (kind : EntityKind) (index : Nat)
    (e : EntityToken) : Prop where
  place : (t.entitiesOf kind)[index]? = some e
  named : e.name = name
  alone : ∀ i x, (t.entitiesOf kind)[i]? = some x → x.name = name → i = index
  first : ∀ k ∈ kind.before, ∀ x ∈ t.entitiesOf k, x.name ≠ name

theorem index_unique (distinct : t.HasDistinctNames) {kind : EntityKind} {i j : Nat}
    {x y : EntityToken} (left : (t.entitiesOf kind)[i]? = some x)
    (right : (t.entitiesOf kind)[j]? = some y) (same : x.name = y.name) : i = j := by
  have names := distinct.entities kind
  obtain ⟨inRange, -⟩ := List.getElem?_eq_some_iff.1 left
  refine (List.getElem?_inj (by simpa using inRange) names).1 ?_
  rw [List.getElem?_map, List.getElem?_map, left, right, Option.map_some, Option.map_some, same]

theorem IsFirstNamed.unique {kind kind' : EntityKind}
    {index index' : Nat} {e e' : EntityToken} (first : t.IsFirstNamed name kind' index' e')
    (place : (t.entitiesOf kind)[index]? = some e) (named : e.name = name)
    (before : ∀ k ∈ kind.before, ∀ x ∈ t.entitiesOf k, x.name ≠ name) :
    kind' = kind ∧ index' = index ∧ e' = e := by
  have sameKind : kind' = kind := by
    apply EntityKind.eq_of_not_mem_before
    · exact fun earlier => before kind' earlier e' (List.mem_of_getElem? first.place) first.named
    · exact fun earlier => first.first kind earlier e (List.mem_of_getElem? place) named
  subst sameKind
  have sameIndex : index' = index := (first.alone index e place named).symm
  subst sameIndex
  exact ⟨rfl, rfl, Option.some.inj (first.place.symm.trans place)⟩

theorem exists_find?_isFirstNamed (distinct : t.HasDistinctNames) {kind : EntityKind}
    {e : EntityToken} (member : e ∈ t.entitiesOf kind) :
    ∃ kind' index' e', t.entities.find? (fun (_, x) => x.name == e.name) = some (kind', e') ∧
      t.IsFirstNamed e.name kind' index' e' := by
  have there : (kind, e) ∈ t.entities := mem_entities_iff.2 member
  cases found : t.entities.find? (fun (_, x) => x.name == e.name) with
  | none =>
    have unnamed := List.find?_eq_none.1 found (kind, e) there
    simp at unnamed
  | some source =>
    obtain ⟨kind', e'⟩ := source
    have named : e'.name = e.name := by simpa using List.find?_some found
    obtain ⟨index', place⟩ := List.mem_iff_getElem?.1
      (mem_entities_iff.1 (List.mem_of_find?_eq_some found))
    exact ⟨kind', index', e', rfl, place, named,
      fun i x other same => index_unique distinct other place (same.trans named.symm),
      find?_kinds found⟩

end TokenTree

namespace Outline

variable {m : Markers} {t : TokenTree} {n : Node} {kind : EntityKind} {index : Nat}

private theorem exists_offer {offers : List (Node × Bool)} (member : n ∈ offerOpen offers) :
    ∃ offer ∈ offers, offer.1.label = n.label ∧ offer.1.target = n.target := by
  induction offers with
  | nil => cases member
  | cons offer offers ih =>
    obtain ⟨node, mayOpen⟩ := offer
    cases mayOpen with
    | false =>
      rcases List.mem_cons.1 member with rfl | later
      · exact ⟨(n, false), List.mem_cons_self, rfl, rfl⟩
      · obtain ⟨other, there, same⟩ := ih later
        exact ⟨other, List.mem_cons_of_mem _ there, same⟩
    | true =>
      rcases List.mem_cons.1 member with rfl | later
      · exact ⟨(node, true), List.mem_cons_self, rfl, rfl⟩
      · obtain ⟨other, there, rfl⟩ := List.mem_map.1 later
        exact ⟨other, List.mem_cons_of_mem _ there, rfl, rfl⟩

private theorem label_of_dataRoots {offer : Node × Bool} (member : offer ∈ dataRoots t) :
    offer.1.target ≠ some (.entity kind index) := by
  unfold dataRoots at member
  cases data : t.data with
  | none => simp [data] at member
  | some root =>
    simp only [data] at member
    split at member
    · obtain ⟨node, there, rfl⟩ := List.mem_map.1 member
      unfold dataNodes at there
      obtain ⟨i, inRange, rfl⟩ := List.mem_mapIdx.1 there
      unfold dataNode
      split <;> simp [branch, leaf]
    · obtain rfl := List.mem_singleton.1 member
      simp [leaf]

theorem entity_of_root (member : n ∈ roots m t) (target : n.target = some (.entity kind index)) :
    ∃ e, (t.entitiesOf kind)[index]? = some e ∧ n.label = Label.entity m kind e := by
  obtain ⟨offer, there, label, same⟩ := exists_offer member
  rw [← same] at target
  rw [← label]
  simp only [rootOffers, List.mem_append, or_assoc] at there
  rcases there with strict | sections | entities | media | selectors | data
  · split at strict
    · obtain rfl := List.mem_singleton.1 strict
      simp [leaf] at target
    · cases strict
  · obtain ⟨s, -, rfl⟩ := List.mem_map.1 sections
    simp [branch] at target
  · obtain ⟨node, listed, rfl⟩ := List.mem_map.1 entities
    obtain ⟨kind', -, ofKind⟩ := List.mem_flatMap.1 listed
    obtain ⟨i, inRange, rfl⟩ := List.mem_mapIdx.1 ofKind
    obtain ⟨rfl, rfl⟩ : kind' = kind ∧ i = index := by simpa [branch] using target
    exact ⟨_, List.getElem?_eq_getElem inRange, rfl⟩
  · obtain ⟨condition, -, rfl⟩ := List.mem_map.1 media
    simp [branch] at target
  · obtain ⟨entry, -, rfl⟩ := List.mem_map.1 selectors
    simp [selectorNode, branch] at target
  · exact absurd target (label_of_dataRoots data)

end Outline

namespace Session

variable {s : Session} {label : String} {source : EntityKind × EntityToken}

/-- Whenever the label is selected for a new file of a supported language, the file starts from
this entity. -/
def TakesAsSource (s : Session) (label : String) (source : EntityKind × EntityToken) : Prop :=
  ∀ (workspace : String) (d : Document) (l : Scaffold.Language) (mode : Scaffold.Mode)
    (isInteractive : Bool), s.workspace = some workspace → s.active = some d →
    Scaffold.Language.ofId? d.language = some l →
    s.dialogue mode (some label) isInteractive = s.askDetails l d workspace mode source

theorem takesAsSource_of_named (named : s.named? (s.markers.strip (Text.trim label)) = some source) :
    s.TakesAsSource label source := by
  intro workspace d l mode isInteractive place active language
  simp only [dialogue, place, active, language, chooseEntity]
  cases entities : s.tree.entities with
  | nil =>
    rw [named?, entities] at named
    cases named
  | cons first rest => simp only [named]

theorem tree_distinct (c : Config) (workspace : Option String) (events : List Event) :
    ((start c workspace).run events).tree.HasDistinctNames := by
  rcases tree_empty_or_analyzed c workspace events with empty | ⟨z, d, made⟩
  · exact empty ▸ .empty
  · exact Analyzer.analyze_distinct made

/-- Every root node for an entity selects the entity that it targets. -/
def SelectsTargets (s : Session) : Prop :=
  ∀ n ∈ s.roots, ∀ kind index, n.target = some (.entity kind index) →
    ∃ e, (s.tree.entitiesOf kind)[index]? = some e ∧ s.TakesAsSource n.label (kind, e)

/-- The label of a root node for an entity, when it is clear, selects the first entity of that
name. There is exactly one of its kind, so that it is the entity of the node unless a kind
listed before has one of the name. -/
theorem root_selects_first (c : Config) (workspace : Option String) (events : List Event)
    {n : Outline.Node} {kind : EntityKind} {index : Nat}
    (member : n ∈ ((start c workspace).run events).roots)
    (target : n.target = some (.entity kind index)) :
    let s := (start c workspace).run events
    ∃ e, (s.tree.entitiesOf kind)[index]? = some e ∧ n.label = Label.entity c.markers kind e ∧
      (Label.IsClear c.markers kind e →
        ∃ kind' index' e', s.tree.IsFirstNamed e.name kind' index' e' ∧
          s.TakesAsSource n.label (kind', e') ∧
          ((∀ k ∈ kind.before, ∀ x ∈ s.tree.entitiesOf k, x.name ≠ e.name) →
            kind' = kind ∧ index' = index ∧ e' = e)) := by
  intro s
  have markers : s.markers = c.markers := congrArg Config.markers (run_config c workspace events)
  have distinct : s.tree.HasDistinctNames := tree_distinct c workspace events
  obtain ⟨e, place, label⟩ := Outline.entity_of_root member target
  rw [markers] at label
  refine ⟨e, place, label, fun clear => ?_⟩
  obtain ⟨kind', index', e', found, first⟩ :=
    TokenTree.exists_find?_isFirstNamed distinct (List.mem_of_getElem? place)
  refine ⟨kind', index', e', first, ?_, first.unique place rfl⟩
  apply takesAsSource_of_named
  rw [label, markers, clear.strip_trim]
  exact found

/-! A name of two kinds, and a name that begins with a mark -/

def sharedDocument : Document where
  language := "typescript"
  file := "a.ts"
  text := "interface Foo {}\nclass Foo {}\nabstract class Bar {}"

def sharedSession : Session := (start {} (some "/w")).run [.focus sharedDocument]

/-- A session in which read-only members are marked with a letter. -/
def letterSession : Session :=
  (start { readonlyMark := "F" } (some "/w")).run [.focus sharedDocument]

private theorem exists_root {s : Session} {label : String} {target : Outline.Target}
    (listed : s.roots.any (fun n => n.label == label && n.target == some target) = true) :
    ∃ n ∈ s.roots, n.label = label ∧ n.target = some target := by
  simpa using listed

private def ListsFoo (s : Session) : Prop :=
  s.workspace = some "/w" ∧ s.active = some sharedDocument ∧
    s.roots.any (fun n => n.label == "Foo" && n.target == some (.entity .class 0)) = true

private instance (s : Session) : Decidable s.ListsFoo :=
  inferInstanceAs (Decidable (_ ∧ _ ∧ _))

private theorem sharedSession_facts :
    sharedSession.ListsFoo ∧ sharedSession.markers.strip (Text.trim "Foo") = "Foo" ∧
    (sharedSession.named? "Foo").isSome = true ∧
    sharedSession.roots.any
      (fun n => n.label == "ⒶBar" && n.target == some (.entity .class 1)) = true ∧
    (sharedSession.tree.entitiesOf .class)[1]?.map (·.name) = some "Bar" ∧
    ∀ k ∈ EntityKind.class.before, ∀ x ∈ sharedSession.tree.entitiesOf k, x.name ≠ "Bar" := by
  decide +kernel

private theorem letterSession_facts :
    letterSession.ListsFoo ∧ (letterSession.dialogue .implementation (some "Foo") true).run
      (.ofAnswers [none] true) [] = (.fail (.unknownEntity "oo"), []) := by
  decide +kernel

private theorem run_of_selectsTargets {s : Session} (selects : s.SelectsTargets)
    (lists : s.ListsFoo) (p : Prompter) :
    ∃ e, (s.tree.entitiesOf .class)[0]? = some e ∧
      (s.dialogue .implementation (some "Foo") true).run p [] =
        (s.askDetails .script sharedDocument "/w" .implementation (.class, e)).run p [] := by
  obtain ⟨place, active, listed⟩ := lists
  obtain ⟨n, member, label, target⟩ := exists_root listed
  obtain ⟨e, first, taken⟩ := selects n member .class 0 target
  rw [label] at taken
  exact ⟨e, first, congrArg (Dialogue.run p [])
    (taken "/w" sharedDocument .script .implementation true place active (by decide +kernel))⟩

def barChoices (source : EntityKind × EntityToken) : Choices where
  workspace := "/w"
  document := sharedDocument
  language := .script
  source := source
  target := "Bar"
  directory := ""
  extension := some "ts"

def barPrompter : Prompter := .ofAnswers [some "Bar", some "", some "ts"] true

private theorem run_barPrompter (source : EntityKind × EntityToken) :
    ((sharedSession.askDetails .script sharedDocument "/w" .implementation source).run
      barPrompter []).1 = .create (barChoices source).place ((barChoices source).path .implementation)
        ((barChoices source).text sharedSession .implementation) := by
  have trimmed : Text.trim "Bar" = "Bar" := by decide +kernel
  have named : (Name.splitTarget "Bar" Scaffold.Language.script.separator none).1.isEmpty = false := by
    decide +kernel
  simp only [askDetails, Dialogue.run, barPrompter, Prompter.ofAnswers, List.length_nil,
    List.getElem?_cons_zero, trimmed, named, Bool.false_eq_true, if_false, List.nil_append,
    List.length_singleton, List.getElem?_cons_succ, askExtension]
  rfl

private theorem sharedSession_text_class {e : EntityToken}
    (place : (sharedSession.tree.entitiesOf .class)[0]? = some e) :
    (barChoices (.class, e)).text sharedSession .implementation = "export class Bar \x7b\n\x7d\n" := by
  have written : (sharedSession.tree.entitiesOf .class)[0]?.map (fun e => String.join
      (((barChoices (.class, e)).lines sharedSession .implementation).map (· ++ "\n"))) =
      some "export class Bar \x7b\n\x7d\n" := by decide +kernel
  rw [place] at written
  rw [Choices.text_eq]
  exact Option.some.inj written

private theorem sharedSession_text_named {source : EntityKind × EntityToken}
    (named : sharedSession.named? "Foo" = some source) :
    (barChoices source).text sharedSession .implementation =
      "export class Bar implements Foo \x7b\n\x7d\n" := by
  have written : (sharedSession.named? "Foo").map (fun source => String.join
      (((barChoices source).lines sharedSession .implementation).map (· ++ "\n"))) =
      some "export class Bar implements Foo \x7b\n\x7d\n" := by decide +kernel
  rw [named] at written
  rw [Choices.text_eq]
  exact Option.some.inj written

/-- A class does not get selected by its label when an interface has its name, nor when its
name begins with a mark. -/
theorem not_selectsTargets :
    ¬ sharedSession.SelectsTargets ∧
    letterSession.config.validate.toOption = some () ∧ ¬ letterSession.SelectsTargets := by
  refine ⟨fun selects => ?shared, by decide +kernel, fun selects => ?letter⟩
  case shared =>
    obtain ⟨lists, stripped, isNamed, -⟩ := sharedSession_facts
    obtain ⟨e, place, same⟩ := run_of_selectsTargets selects lists barPrompter
    obtain ⟨source, named⟩ := Option.isSome_iff_exists.1 isNamed
    have taken : sharedSession.TakesAsSource "Foo" source :=
      takesAsSource_of_named (by rw [stripped, named])
    rw [taken "/w" sharedDocument .script .implementation true lists.1 lists.2.1
      (by decide +kernel)] at same
    have texts := congrArg Prod.fst same
    rw [run_barPrompter, run_barPrompter] at texts
    have text := (Plan.create.inj texts).2.2
    rw [sharedSession_text_named named, sharedSession_text_class place] at text
    exact absurd text (by decide)
  case letter =>
    obtain ⟨lists, unknown⟩ := letterSession_facts
    obtain ⟨e, -, same⟩ := run_of_selectsTargets selects lists (.ofAnswers [none] true)
    rw [unknown] at same
    cases same

/-- A class with a name of its own is selected by its label. -/
theorem root_selects_first_bar :
    ∃ n ∈ sharedSession.roots, n.label = "ⒶBar" ∧ n.target = some (.entity .class 1) ∧
      ∃ e, (sharedSession.tree.entitiesOf .class)[1]? = some e ∧
        sharedSession.TakesAsSource "ⒶBar" (.class, e) := by
  obtain ⟨-, -, -, listed, names, others⟩ := sharedSession_facts
  obtain ⟨n, member, label, target⟩ := exists_root listed
  obtain ⟨e, place, shown, clear⟩ :=
    root_selects_first {} (some "/w") [.focus sharedDocument] member target
  have name : e.name = "Bar" := Option.some.inj (by rw [← names, ← Option.map_some, ← place]; rfl)
  have labelled : Label.entity (Config.markers {}) .class e = "ⒶBar" := shown.symm.trans label
  have marked : Label.entityMark (Config.markers {}) .class e = "Ⓐ" := by
    have whole : _ ++ "Bar" = "Ⓐ" ++ "Bar" := name ▸ (Label.entity_eq _ .class e).symm.trans labelled
    exact String.append_left_inj _ |>.1 whole
  obtain ⟨kind', index', e', -, taken, only⟩ := clear
    ⟨by rw [labelled]; decide +kernel, by rw [labelled, marked]; decide +kernel⟩
  obtain ⟨rfl, -, rfl⟩ := only (name ▸ others)
  exact ⟨n, member, label, target, e', place, label ▸ taken⟩

end Session

end CodeOutline
