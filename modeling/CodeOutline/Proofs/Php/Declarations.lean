import CodeOutline.Proofs.Analysis.Distinct
import CodeOutline.Proofs.Analysis.Walks
import CodeOutline.Proofs.Php.Names

/-!
What a PHP document declares, told from its syntax tree alone, and that the outline lists it:
of the declarations of a kind the first of each shown name, and the first namespace.
-/

set_option autoImplicit false

namespace CodeOutline.Analysis.Php

open Syntax
open EntityToken (insertNew)

/-- An entity as it is declared: its name and the namespace in effect there. -/
structure Declaration where
  kind : EntityKind
  name : String
  space : Option String
  span : Span

namespace Declaration

/-- The name that stands for the entity everywhere in the source. -/
def fullName (d : Declaration) : String :=
  match d.space with
  | some ns => ns ++ separator ++ d.name
  | none => d.name

def shown (position : NamespacePosition) (d : Declaration) : String :=
  Name.qualify d.name d.space separator position

end Declaration

/-- A namespace that begins, or an entity. -/
inductive Mark
  | space (name : String)
  | entity (d : Declaration)

def Mark.space? : Mark → Option String
  | .space name => some name
  | .entity _ => none

def Mark.entity? : Mark → Option Declaration
  | .space _ => none
  | .entity d => some d

def entityKind? : String → Option EntityKind
  | "class_declaration" => some .class
  | "interface_declaration" => some .interface
  | "trait_declaration" => some .trait
  | _ => none

mutual

/-- What a statement declares, and the namespace in effect behind it. A namespace with a body
ends with it; any other one holds for what follows. -/
def marks (space : Option String) : Node → List Mark × Option String
  | ⟨kind, isNamed, isExtra, field, start, stop, tail, children⟩ =>
    let n : Node := ⟨kind, isNamed, isExtra, field, start, stop, tail, children⟩
    match kind with
    | "namespace_definition" =>
      let name := (n.child? "name").map Node.text
      let begins := name.toList.map Mark.space
      if (n.child? "body").isSome then (begins ++ (marksAll name children).1, space)
      else (begins, name)
    | "compound_statement" => marksAll space children
    | kind =>
      match entityKind? kind, n.child? "name" with
      | some k, some name => ([.entity ⟨k, name.text, space, name.span⟩], space)
      | _, _ => ([], space)

def marksAll (space : Option String) : List Node → List Mark × Option String
  | [] => ([], space)
  | n :: rest =>
    let (here, behind) := marks space n
    let (more, last) := marksAll behind rest
    (here ++ more, last)

end

/-- Everything that a document declares; nothing when it cannot be read. -/
def marksOf (text : String) : List Mark :=
  match Grammar.Php.read? text.toList with
  | some root => (marksAll none root.named).1
  | none => []

/-- The first of all namespaces that the document names. -/
def firstSpace? (text : String) : Option String := ((marksOf text).filterMap Mark.space?).head?

/-- The entities of a kind in the order of their declarations. -/
def declarations (text : String) (kind : EntityKind) : List Declaration :=
  ((marksOf text).filterMap Mark.entity?).filter (·.kind = kind)

/-! Names are words and namespaces are paths -/

open Grammar.Php (IsWord IsPath nameShape)

/-- A namespace in effect is a path. -/
def IsSpace (space : Option String) : Prop := ∀ ns, space = some ns → IsPath ns.toList

def Mark.IsProper : Mark → Prop
  | .space name => IsPath name.toList
  | .entity d => IsWord d.name.toList ∧ IsSpace d.space

section Names

variable {n name : Node} (sound : n.Sound (NameDemand nameShape))
  (named : n.child? "name" = some name)

include sound named

theorem isPath_of_space (kind : n.kind = "namespace_definition") : IsPath name.text.toList := by
  rw [Node.text, String.toList_ofList]
  exact Grammar.Php.isPath_of_makes (sound.name named (by rw [kind]; rfl))

theorem isWord_of_entity {k : EntityKind} (kind : entityKind? n.kind = some k) :
    IsWord name.text.toList := by
  have shaped : nameShape n.kind = some Grammar.Php.nameScan := by
    unfold entityKind? at kind
    split at kind
    · next same => rw [same]; rfl
    · next same => rw [same]; rfl
    · next same => rw [same]; rfl
    · cases kind
  rw [Node.text, String.toList_ofList]
  exact Grammar.Php.isWord_of_makes (sound.name named shaped)

end Names

theorem isSpace_of_sound {n : Node} (sound : n.Sound (NameDemand nameShape))
    (kind : n.kind = "namespace_definition") : IsSpace ((n.child? "name").map Node.text) := by
  intro ns named
  obtain ⟨name, found, rfl⟩ := Option.map_eq_some_iff.1 named
  exact isPath_of_space sound found kind

private theorem begins_proper {name : Option String} (proper : IsSpace name) :
    ∀ m ∈ name.toList.map Mark.space, m.IsProper := by
  intro m member
  obtain ⟨ns, there, rfl⟩ := List.mem_map.1 member
  exact proper ns (Option.mem_toList.1 there)

mutual

private theorem marks_proper : (n : Node) → n.Sound (NameDemand nameShape) →
    (space : Option String) → IsSpace space →
    (∀ m ∈ (marks space n).1, m.IsProper) ∧ IsSpace (marks space n).2
  | ⟨kind, isNamed, isExtra, field, start, stop, tail, children⟩, sound, space, proper => by
    unfold marks
    dsimp only
    split
    · have entered := isSpace_of_sound sound rfl
      split
      · obtain ⟨inner, -⟩ := marksAll_proper children sound.child _ entered
        exact ⟨List.forall_mem_append.2 ⟨begins_proper entered, inner⟩, proper⟩
      · exact ⟨begins_proper entered, entered⟩
    · exact marksAll_proper children sound.child space proper
    · split
      · next k name kinded named =>
        exact ⟨List.forall_mem_singleton.2 ⟨isWord_of_entity sound named kinded, proper⟩, proper⟩
      · exact ⟨List.forall_mem_nil _, proper⟩

private theorem marksAll_proper : (ns : List Node) → (∀ n ∈ ns, n.Sound (NameDemand nameShape)) →
    (space : Option String) → IsSpace space →
    (∀ m ∈ (marksAll space ns).1, m.IsProper) ∧ IsSpace (marksAll space ns).2
  | [], _, space, proper => by
    unfold marksAll
    exact ⟨List.forall_mem_nil _, proper⟩
  | n :: ns, sound, space, proper => by
    rw [List.forall_mem_cons] at sound
    obtain ⟨here, behind⟩ := marks_proper n sound.1 space proper
    obtain ⟨more, last⟩ := marksAll_proper ns sound.2 _ behind
    unfold marksAll
    exact ⟨List.forall_mem_append.2 ⟨here, more⟩, last⟩

end

theorem marksOf_proper (text : String) : ∀ m ∈ marksOf text, m.IsProper := by
  unfold marksOf
  split
  · next root read =>
    have sound := Grammar.Php.sound_of_read? read
    refine (marksAll_proper root.named (fun n member => ?_) none ?_).1
    · exact sound n (Node.mem_children_of_mem_named member)
    · rintro ns ⟨⟩
  · exact List.forall_mem_nil _

theorem declaration_proper {text : String} {kind : EntityKind} {d : Declaration}
    (member : d ∈ declarations text kind) : (Mark.entity d).IsProper := by
  obtain ⟨m, there, isEntity⟩ := List.mem_filterMap.1 (List.mem_filter.1 member).1
  cases m with
  | space name => cases isEntity
  | entity d' =>
    obtain rfl := Option.some.inj isEntity
    exact marksOf_proper text _ there

/-! The outline lists the declarations -/

def Declaration.face (position : NamespacePosition) (d : Declaration) : String × Option Span :=
  (d.shown position, some d.span)

def entitiesIn (position : NamespacePosition) (ms : List Mark) : List Shown :=
  (ms.filterMap Mark.entity?).map (fun d => ⟨d.kind, d.shown position, some d.span⟩)

structure Walk.Lists (position : NamespacePosition) (w : Walk) (ms : List Mark)
    (space : Option String) : Prop where
  space : w.space = space
  gains : Gains .empty w.tree (ms.filterMap Mark.space?) (entitiesIn position ms)

theorem addClause_sameHead (fore : Option String) (t : TokenTree) (clause : Node) :
    SameHead t (addClause fore t clause) := by
  unfold addClause
  dsimp only
  split
  · exact .refl t
  · exact ⟨rfl, fun kind => by cases kind <;> rfl⟩

theorem addUse_sameHead (t : TokenTree) (n : Node) : SameHead t (addUse t n) := by
  refine .foldl (fun t child => ?_) t _
  split
  · exact addClause_sameHead _ t child
  · exact .foldl (addClause_sameHead _) t _
  · exact .refl t

theorem setStrict_sameHead (t : TokenTree) (b : Bool) : SameHead t (t.setStrict b) :=
  ⟨rfl, fun kind => by cases kind <;> rfl⟩

theorem addDeclare_sameHead (t : TokenTree) (n : Node) : SameHead t (addDeclare t n) := by
  unfold addDeclare
  split
  · split
    · split <;> exact setStrict_sameHead t _
    · exact .refl t
  · exact .refl t

theorem addAssignment_sameHead (t : TokenTree) (n : Node) : SameHead t (addAssignment t n) := by
  unfold addAssignment
  split
  · exact .refl t
  · split
    · split
      · exact ⟨rfl, fun kind => by cases kind <;> rfl⟩
      · exact .refl t
    · exact .refl t

theorem addFunction_sameHead (t : TokenTree) (m : MethodToken) : SameHead t (t.addFunction m) :=
  ⟨rfl, fun kind => by cases kind <;> rfl⟩

theorem addMember_face (t : TokenTree) (e : EntityToken) (member : Node) :
    (addMember t e member).face = e.face := by
  unfold addMember
  split
  case h_3 | h_5 => rfl
  all_goals
    refine foldl_keeps EntityToken.face ?_ e _
    exact fun _ _ => rfl

theorem addEntity_gains (position : NamespacePosition) (w : Walk) (kind : EntityKind) (n : Node) :
    Gains w.tree (addEntity position w kind n).tree [] ((n.child? "name").map (fun name =>
      Shown.mk kind (Name.qualify name.text w.space separator position) (some name.span))).toList := by
  unfold addEntity
  split
  · next unnamed => rw [unnamed]; exact .refl w.tree
  · next name named =>
    rw [named]
    refine .addEntity w.tree kind ?_
    exact foldl_keeps EntityToken.face (addMember_face w.tree) _ _

theorem space_addEntity (position : NamespacePosition) (w : Walk) (kind : EntityKind) (n : Node) :
    (addEntity position w kind n).space = w.space := by
  unfold addEntity
  split <;> rfl

theorem enterSpace_gains (w : Walk) (n : Node) :
    Gains w.tree (enterSpace w n).tree
      ((n.child? "name").map (fun name => dropSlashes name.text)).toList [] := by
  unfold enterSpace
  cases n.child? "name" with
  | none => exact .refl w.tree
  | some name => exact .setFirst w.tree _

theorem dropSlashes_of_isPath {s : String} (path : IsPath s.toList) : dropSlashes s = s := by
  obtain ⟨c, rest, whole, start⟩ := path.start
  have other := (Grammar.Php.isNameChar_apart (Grammar.Php.isNameChar_of_isNameStart start)).1
  rw [dropSlashes, Text.dropLeft, whole, List.dropWhile_cons_of_neg (by simpa using other), ← whole,
    String.ofList_toList]

theorem marks_of_entity {n : Node} {kind : EntityKind} (declares : entityKind? n.kind = some kind)
    (space : Option String) :
    marks space n = (((n.child? "name").map
      (fun name => Mark.entity ⟨kind, name.text, space, name.span⟩)).toList, space) := by
  obtain ⟨word, isNamed, isExtra, field, start, stop, tail, children⟩ := n
  unfold marks
  dsimp only at declares ⊢
  split
  · cases declares
  · cases declares
  · rw [declares]
    split
    · next k name same named =>
      obtain rfl := Option.some.inj same
      rw [named]
      rfl
    · next other =>
      cases named : Node.child? ⟨word, isNamed, isExtra, field, start, stop, tail, children⟩ "name"
      with
      | none => rfl
      | some name => exact absurd named (other kind name rfl)

namespace Walk.Lists

variable {position : NamespacePosition} {w : Walk} {ms : List Mark} {space : Option String}
  {n : Node}

theorem start (position : NamespacePosition) : ({} : Walk).Lists position [] none where
  space := rfl
  gains := .refl .empty

theorem more (lists : w.Lists position ms space) {w' : Walk} {ms' : List Mark}
    {space' : Option String} (entered : w'.space = space')
    (gains : Gains w.tree w'.tree (ms'.filterMap Mark.space?) (entitiesIn position ms')) :
    w'.Lists position (ms ++ ms') space' where
  space := entered
  gains := by
    rw [List.filterMap_append, entitiesIn, List.filterMap_append, List.map_append]
    exact lists.gains.trans gains

theorem keepAll (lists : w.Lists position ms space) (nothing : marks space n = ([], space))
    {t : TokenTree} (same : SameHead w.tree t) :
    ({ w with tree := t } : Walk).Lists position (ms ++ (marks space n).1) (marks space n).2 := by
  rw [nothing]
  exact lists.more lists.space (.of_sameHead same)

theorem declare (lists : w.Lists position ms space) {kind : EntityKind}
    (declares : entityKind? n.kind = some kind) :
    (addEntity position w kind n).Lists position (ms ++ (marks space n).1) (marks space n).2 := by
  rw [marks_of_entity declares]
  refine lists.more ((space_addEntity position w kind n).trans lists.space) ?_
  have gains := addEntity_gains position w kind n
  rw [lists.space] at gains
  cases named : n.child? "name" with
  | none => rw [named] at gains; exact gains
  | some name => rw [named] at gains; exact gains

theorem enter (lists : w.Lists position ms space) (sound : n.Sound (NameDemand nameShape))
    (kind : n.kind = "namespace_definition") :
    (enterSpace w n).Lists position
      (ms ++ ((n.child? "name").map Node.text).toList.map Mark.space)
      ((n.child? "name").map Node.text) := by
  have proper := isSpace_of_sound sound kind
  have plain : (n.child? "name").map (fun name => dropSlashes name.text) =
      (n.child? "name").map Node.text := by
    cases named : n.child? "name" with
    | none => rfl
    | some name => exact congrArg some (dropSlashes_of_isPath (proper name.text (by rw [named]; rfl)))
  refine lists.more plain ?_
  have gains := enterSpace_gains w n
  rw [plain] at gains
  cases named : n.child? "name" with
  | none => rw [named] at gains; exact gains
  | some name => rw [named] at gains; exact gains

end Walk.Lists

mutual

private theorem visit_lists (position : NamespacePosition) : (n : Node) →
    n.Sound (NameDemand nameShape) → (w : Walk) → (ms : List Mark) → (space : Option String) →
    w.Lists position ms space →
    (visit position w n).Lists position (ms ++ (marks space n).1) (marks space n).2
  | ⟨kind, isNamed, isExtra, field, start, stop, tail, children⟩, sound, w, ms, space, lists => by
    unfold visit
    dsimp only
    split
    · have inner := lists.enter sound rfl
      unfold marks
      dsimp only
      split
      · have body := visitAll_lists position children sound.child _ _ _ inner
        rw [List.append_assoc] at body
        exact ⟨lists.space, body.gains⟩
      · exact inner
    · exact lists.keepAll (by simp [marks, entityKind?]) (addUse_sameHead _ _)
    · exact lists.keepAll (by simp [marks, entityKind?]) (addDeclare_sameHead _ _)
    · exact lists.declare rfl
    · exact lists.declare rfl
    · exact lists.declare rfl
    · exact lists.keepAll (by simp [marks, entityKind?]) (addFunction_sameHead _ _)
    · exact lists.keepAll (by simp [marks, entityKind?]) (addAssignment_sameHead _ _)
    · unfold marks
      exact visitAll_lists position children sound.child w ms space lists
    · exact lists.keepAll (by simp [marks, entityKind?, *]) (.refl _)

private theorem visitAll_lists (position : NamespacePosition) : (ns : List Node) →
    (∀ n ∈ ns, n.Sound (NameDemand nameShape)) → (w : Walk) → (ms : List Mark) →
    (space : Option String) → w.Lists position ms space →
    (visitAll position w ns).Lists position (ms ++ (marksAll space ns).1) (marksAll space ns).2
  | [], _, w, ms, space, lists => by
    unfold visitAll marksAll
    rwa [List.append_nil]
  | n :: ns, sound, w, ms, space, lists => by
    rw [List.forall_mem_cons] at sound
    have here := visit_lists position n sound.1 w ms space lists
    have all := visitAll_lists position ns sound.2 _ _ _ here
    unfold visitAll marksAll
    rwa [List.append_assoc] at all

end

/-- An outline lists of the declarations of each kind the first of each shown name, and the
first namespace that the document names. -/
theorem tree?_lists {text : String} {settings : LanguageSettings} {t : TokenTree}
    (read : tree? text settings = some t) :
    t.space = firstSpace? text ∧ ∀ kind, t.faces kind =
      (firsts (·.shown settings.position) (declarations text kind)).map
        (·.face settings.position) := by
  obtain ⟨root, found, rfl⟩ := Option.map_eq_some_iff.1 read
  have sound := Grammar.Php.sound_of_read? found
  have lists := visitAll_lists settings.position root.named
    (fun n member => sound n (Node.mem_children_of_mem_named member)) {} [] none (.start _)
  have all : marksOf text = (marksAll none root.named).1 := by simp only [marksOf, found]
  rw [List.nil_append, ← all] at lists
  refine ⟨?_, fun kind => ?_⟩
  · have filled (ns : String) (member : ns ∈ (marksOf text).filterMap Mark.space?) : ns ≠ "" := by
      obtain ⟨m, there, named⟩ := List.mem_filterMap.1 member
      cases m with
      | entity d => cases named
      | space name =>
        obtain rfl := Option.some.inj named
        obtain ⟨c, rest, whole, -⟩ := (marksOf_proper text _ there : IsPath name.toList).start
        rintro rfl
        cases whole
    rw [lists.gains.space, firstSpace?, ← List.head?_filter,
      List.filter_eq_self.2 (fun ns member => decide_eq_true (filled ns member))]
    rfl
  · have listed : facesOf kind (entitiesIn settings.position (marksOf text)) =
        (declarations text kind).map (·.face settings.position) := by
      rw [facesOf, entitiesIn, List.filter_map, List.map_map]
      rfl
    rw [lists.gains.faces_eq (fun kind => by cases kind <;> rfl), listed, firsts_map]
    rfl

theorem analyze_lists {d : Document} {c : Config} {t : TokenTree}
    (analyzed : Analyzer.php.analyze d c = .ok t) :
    t.space = firstSpace? d.text ∧ ∀ kind, (t.entitiesOf kind).map (·.name) =
      (firsts (·.shown (c.language d.language).position) (declarations d.text kind)).map
        (·.shown (c.language d.language).position) := by
  obtain ⟨t', reading, changed⟩ := Analyzer.read_of_analyze analyzed
  have read : tree? d.text (c.language d.language) = some t' := by
    simp only [Analyzer.read, Analyzer.orSyntaxError] at reading
    split at reading
    · next t'' found =>
      obtain rfl := Except.ok.inj reading
      exact found
    · cases reading
  obtain ⟨space, entities⟩ := tree?_lists read
  have names (kind : EntityKind) := congrArg (List.map Prod.fst) (entities kind)
  simp only [TokenTree.faces, List.map_map] at names
  rcases changed with rfl | ⟨f, rfl⟩
  · exact ⟨space, names⟩
  · exact ⟨space, fun kind => (t'.names_mapSpan f kind).trans (names kind)⟩

end CodeOutline.Analysis.Php
