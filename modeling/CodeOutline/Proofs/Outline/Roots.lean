import CodeOutline.Proofs.Outline.Expansion
import CodeOutline.Proofs.Related

/-!
The root nodes of an outline stand in a fixed order of groups. The first node that may start
open does, and no other node of an outline does, at the root or below it.
-/

set_option autoImplicit false

namespace CodeOutline

namespace Outline

namespace Entry

/-- The heading of a section that is not empty. -/
def heading (t : TokenTree) (s : Section) : List Entry :=
  if s.isEmpty t then [] else [.header s]

/-- The outermost entries group by group; within a group they stand as in the source. -/
def grouped (t : TokenTree) : List Entry :=
  (if t.strict = some true then [.strict] else []) ++
  (heading t .imports ++ heading t .vars ++ heading t .functions ++ heading t .rules ++
    heading t .items) ++
  (t.interfaces.map (.entity .interface) ++ t.traits.map (.entity .trait) ++
    t.classes.map (.entity .class)) ++
  t.media.entries.map (fun (condition, m) => .media condition m) ++
  t.nodes.entries.map (fun (s, ds) => .selector s ds) ++
  rootValues t

/-- Whether the node of an entry starts open when no node before it does. -/
def opens : Entry → Bool
  | .header .functions | .header .rules | .header .items => true
  | .entity _ _ | .media _ _ | .selector _ _ => true
  | .data _ d => d.kind.isContainer
  | _ => false

end Entry

/-- The node does not show its children, if it has any. -/
def Node.IsClosed (n : Node) : Prop :=
  n.collapse = if n.target = none then .none else .collapsed

private structure IsOfferOf (m : Markers) (o : Node × Bool) (e : Entry) : Prop where
  face : o.1.face = e.face m
  leaf : o.1.target = none ↔ e.isLeaf = true
  closed : o.1.IsClosed
  opens : o.2 = e.opens

section Closed

variable {m : Markers} {t : TokenTree}

private theorem dataNode_isClosed (parent : DataKind) (path : List Nat) (child : DataToken)
    (index : Nat) : (dataNode parent path child index).IsClosed := by
  unfold dataNode
  split <;> rfl

private theorem dataNodes_isClosed {parent : DataToken} {path : List Nat} {node : Node}
    (shown : node ∈ dataNodes parent path) : node.IsClosed := by
  obtain ⟨index, inside, rfl⟩ := List.mem_mapIdx.1 shown
  exact dataNode_isClosed _ _ _ _

private theorem isClosed_of_mem_map {α : Type} {f : α → Node} {as : List α} {node : Node}
    (shown : node ∈ as.map f) (each : ∀ a, (f a).IsClosed) : node.IsClosed := by
  obtain ⟨a, -, rfl⟩ := List.mem_map.1 shown
  exact each a

private theorem sectionNodes_isClosed {s : Section} {node : Node}
    (shown : node ∈ sectionNodes m t s) : node.IsClosed := by
  cases s <;> exact isClosed_of_mem_map shown (fun _ => rfl)

private theorem memberNodes_isClosed {kind : EntityKind} {e : EntityToken} {node : Node}
    (shown : node ∈ memberNodes m kind e) : node.IsClosed := by
  simp only [memberNodes, List.mem_append] at shown
  rcases shown with (((constant | accessor) | property) | used) | method
  · exact isClosed_of_mem_map constant (fun _ => rfl)
  · split at accessor
    · exact isClosed_of_mem_map accessor (fun _ => rfl)
    · cases accessor
  · exact isClosed_of_mem_map property (fun _ => rfl)
  · split at used
    · cases used
    · exact isClosed_of_mem_map used (fun _ => rfl)
  · exact isClosed_of_mem_map method (fun _ => rfl)

private theorem childrenOf_isClosed {target : Target} {node : Node}
    (shown : node ∈ childrenOf m t target) : node.IsClosed := by
  cases target with
  | «section» s => exact sectionNodes_isClosed shown
  | entity kind index =>
    simp only [childrenOf] at shown
    split at shown
    · exact memberNodes_isClosed shown
    · cases shown
  | media condition => exact isClosed_of_mem_map shown (fun _ => rfl)
  | selector block s =>
    cases block with
    | none => exact isClosed_of_mem_map shown (fun _ => rfl)
    | some condition => exact isClosed_of_mem_map shown (fun _ => rfl)
  | data path =>
    simp only [childrenOf] at shown
    split at shown
    · exact dataNodes_isClosed shown
    · cases shown

private theorem children_isClosed {node child : Node} (shown : child ∈ children m t node) :
    child.IsClosed := by
  unfold children at shown
  split at shown
  · exact childrenOf_isClosed shown
  · cases shown

end Closed

section Offers

variable {m : Markers} {t : TokenTree}

private theorem map_header_filter (t : TokenTree) :
    (Section.all.filter (fun s => !s.isEmpty t)).map Entry.header =
      Entry.heading t .imports ++ Entry.heading t .vars ++ Entry.heading t .functions ++
        Entry.heading t .rules ++ Entry.heading t .items := by
  have one : ∀ (s : Section) (rest : List Section),
      ((s :: rest).filter (fun s => !s.isEmpty t)).map Entry.header =
        Entry.heading t s ++ (rest.filter (fun s => !s.isEmpty t)).map Entry.header := by
    intro s rest
    cases empty : s.isEmpty t <;> simp [Entry.heading, empty]
  simp only [Section.all, one, List.filter_nil, List.map_nil, List.append_nil, List.append_assoc]

private theorem headings_offered :
    List.Forall₂ (IsOfferOf m)
      ((Section.all.filter (fun s => !s.isEmpty t)).map
        (fun s => (branch s.title .section none (.section s), s.mayExpand)))
      (Entry.heading t .imports ++ Entry.heading t .vars ++ Entry.heading t .functions ++
        Entry.heading t .rules ++ Entry.heading t .items) := by
  rw [← map_header_filter]
  refine forall₂_map _ (fun s _ => ⟨rfl, ?_, rfl, ?_⟩)
  · simp [branch, Entry.isLeaf]
  · cases s <;> rfl

private theorem entities_offered (kind : EntityKind) :
    List.Forall₂ (IsOfferOf m) ((entityNodes m t kind).map (·, true))
      ((t.entitiesOf kind).map (.entity kind)) := by
  rw [entityNodes, List.forall₂_map_left_iff]
  exact forall₂_mapIdx _ (fun _ _ => ⟨rfl, by simp [branch, Entry.isLeaf], rfl, rfl⟩)

private theorem media_offered :
    List.Forall₂ (IsOfferOf m)
      (t.media.keys.map (fun condition =>
        (branch ("@media " ++ condition) .media none (.media condition), true)))
      (t.media.entries.map (fun (condition, map) => .media condition map)) := by
  rw [OrderedMap.keys, List.map_map]
  exact forall₂_map _ (fun _ _ => ⟨rfl, by simp [branch, Entry.isLeaf], rfl, rfl⟩)

private theorem selectors_offered :
    List.Forall₂ (IsOfferOf m) (t.nodes.entries.map (fun entry => (selectorNode none entry, true)))
      (t.nodes.entries.map (fun (s, ds) => .selector s ds)) :=
  forall₂_map _ (fun _ _ => ⟨rfl, by simp [selectorNode, branch, Entry.isLeaf], rfl, rfl⟩)

private theorem dataNode_offered (parent : DataKind) (path : List Nat) (child : DataToken)
    (index : Nat) :
    IsOfferOf m (dataNode parent path child index,
      (dataNode parent path child index).target.isSome) (.data parent child) := by
  unfold dataNode
  obtain ⟨name, span, kind, value, children⟩ := child
  cases kind <;> exact ⟨rfl, by simp [DataKind.isContainer, branch, leaf, Entry.isLeaf], rfl, rfl⟩

private theorem data_offered :
    List.Forall₂ (IsOfferOf m) (dataRoots t) (Entry.rootValues t) := by
  unfold dataRoots Entry.rootValues
  cases t.data with
  | none => exact .nil
  | some root =>
    by_cases container : root.kind.isContainer = true
    · simp only [if_pos container, List.forall₂_map_left_iff]
      exact forall₂_mapIdx _ (fun index child => dataNode_offered root.kind [] child index)
    · simp only [if_neg container]
      obtain ⟨name, span, kind, value, children⟩ := root
      cases kind with
      | object => exact absurd rfl container
      | array => exact absurd rfl container
      | value => exact .cons ⟨rfl, by simp [leaf, Entry.isLeaf, container], rfl, rfl⟩ .nil

private theorem roots_offered (m : Markers) (t : TokenTree) :
    List.Forall₂ (IsOfferOf m) (rootOffers m t) (Entry.grouped t) := by
  have strict : List.Forall₂ (IsOfferOf m)
      (if t.strict = some true then [(leaf "Strict: Yes" .strict none, false)] else [])
      (if t.strict = some true then [.strict] else []) := by
    split
    · exact .cons ⟨rfl, by simp [leaf, Entry.isLeaf], rfl, rfl⟩ .nil
    · exact .nil
  have entities : List.Forall₂ (IsOfferOf m)
      ((EntityKind.all.flatMap (entityNodes m t)).map (·, true))
      (t.interfaces.map (.entity .interface) ++ t.traits.map (.entity .trait) ++
        t.classes.map (.entity .class)) := by
    simp only [EntityKind.all, List.flatMap_cons, List.flatMap_nil, List.append_nil,
      List.map_append, List.append_assoc]
    exact List.rel_append (entities_offered .interface)
      (List.rel_append (entities_offered .trait) (entities_offered .class))
  exact List.rel_append (List.rel_append (List.rel_append (List.rel_append
    (List.rel_append strict headings_offered) entities) media_offered) selectors_offered)
    data_offered

private theorem getElem?_offerOpen (offers : List (Node × Bool)) (i : Nat) :
    (offerOpen offers)[i]? = offers[i]?.map (fun o =>
      if offers.findIdx? Prod.snd = some i then { o.1 with collapse := .expanded } else o.1) := by
  induction offers generalizing i with
  | nil => rfl
  | cons offer offers ih =>
    obtain ⟨node, eligible⟩ := offer
    cases eligible with
    | true => cases i <;> simp [offerOpen, List.findIdx?_cons]
    | false => cases i <;> simp [offerOpen, List.findIdx?_cons, ih]

end Offers

private theorem findIdx?_offers (m : Markers) (t : TokenTree) :
    (rootOffers m t).findIdx? Prod.snd = (Entry.grouped t).findIdx? Entry.opens := by
  have signs : (rootOffers m t).map Prod.snd = (Entry.grouped t).map Entry.opens :=
    map_eq_of_forall₂ (roots_offered m t) (fun _ _ offer => offer.opens)
  simpa only [List.findIdx?_map, Function.id_comp] using congrArg (List.findIdx? id) signs

private theorem Node.IsClosed.collapse_ne {n : Node} (closed : n.IsClosed) :
    n.collapse ≠ .expanded := by
  rw [closed]
  split <;> simp

private theorem Entry.opens_of_isLeaf {e : Entry} (leaf : e.isLeaf = true) : e.opens = false := by
  cases e with
  | header | entity | media | selector => cases leaf
  | data parent d => simpa [isLeaf, opens] using leaf
  | strict | importOf | var | function | rule | item | constant | accessor | property
    | usedTrait | method | declaration => rfl

private theorem map_face_roots (m : Markers) (t : TokenTree) :
    (roots m t).map Node.face = (Entry.grouped t).map (Entry.face m) := by
  have offered : (rootOffers m t).map (fun o => o.1.face) =
      (Entry.grouped t).map (Entry.face m) :=
    map_eq_of_forall₂ (roots_offered m t) (fun _ _ offer => offer.face)
  rw [← offered]
  refine List.ext_getElem? (fun i => ?_)
  simp only [roots, List.getElem?_map, getElem?_offerOpen, Option.map_map]
  refine congrArg (fun f => Option.map f _) (funext fun o => ?_)
  simp only [Function.comp_apply]
  split <;> rfl

private theorem offer_at {m : Markers} {t : TokenTree} {i : Nat} {node : Node} {e : Entry}
    (shown : (roots m t)[i]? = some node) (entry : (Entry.grouped t)[i]? = some e) :
    ∃ o, IsOfferOf m o e ∧
      node = if (Entry.grouped t).findIdx? Entry.opens = some i then
        { o.1 with collapse := .expanded } else o.1 := by
  rw [roots, getElem?_offerOpen, findIdx?_offers, Option.map_eq_some_iff] at shown
  obtain ⟨o, offered, rfl⟩ := shown
  obtain ⟨low, rfl⟩ := List.getElem?_eq_some_iff.1 offered
  obtain ⟨high, rfl⟩ := List.getElem?_eq_some_iff.1 entry
  exact ⟨_, (roots_offered m t).get low high, rfl⟩

private theorem expanded_iff {m : Markers} {t : TokenTree} {i : Nat} {node : Node}
    (shown : (roots m t)[i]? = some node) :
    node.collapse = .expanded ↔ (Entry.grouped t).findIdx? Entry.opens = some i := by
  have lengths : (roots m t).length = (Entry.grouped t).length := by
    simpa only [List.length_map] using congrArg List.length (map_face_roots m t)
  have inside : i < (Entry.grouped t).length := by
    rw [← lengths]
    exact (List.getElem?_eq_some_iff.1 shown).1
  obtain ⟨o, offer, rfl⟩ := offer_at shown (List.getElem?_eq_getElem inside)
  by_cases first : (Entry.grouped t).findIdx? Entry.opens = some i
  · rw [if_pos first]
    exact iff_of_true rfl first
  · rw [if_neg first]
    exact iff_of_false offer.closed.collapse_ne first

/-- The root nodes are the nodes of the outermost entries, group by group: the strict sign, the
headings, interfaces, traits, classes, media blocks, selectors and data values. Expanded is the
first node whose entry opens and no other one; all other nodes, also those below, are collapsed
if they have a target and have nothing to show if they have none. -/
theorem roots_grouped (m : Markers) (t : TokenTree) :
    (roots m t).map Node.face = (Entry.grouped t).map (Entry.face m) ∧
      (∀ i node e, (roots m t)[i]? = some node → (Entry.grouped t)[i]? = some e →
        (node.target = none ↔ e.isLeaf = true) ∧
          (node.collapse = .expanded ↔ (Entry.grouped t).findIdx? Entry.opens = some i) ∧
          (node.target = none → node.collapse = .none) ∧
          (node.collapse ≠ .expanded → node.IsClosed)) ∧
      (∀ (i j : Nat) (a b : Node), (roots m t)[i]? = some a → (roots m t)[j]? = some b →
        a.collapse = .expanded → b.collapse = .expanded → i = j) ∧
      ((∀ node ∈ roots m t, node.collapse ≠ .expanded) ↔
        ∀ e ∈ Entry.grouped t, e.opens = false) ∧
      ∀ node, ∀ child ∈ children m t node, child.IsClosed := by
  refine ⟨map_face_roots m t, ?each, ?one, ?none, fun _ _ shown => children_isClosed shown⟩
  case each =>
    intro i node e shown entry
    have opened := expanded_iff shown
    obtain ⟨o, offer, same⟩ := offer_at shown entry
    have target : node.target = o.1.target := by
      rw [same]
      split <;> rfl
    have closed : node.collapse ≠ .expanded → node.IsClosed := by
      intro other
      rw [same, if_neg (fun first => other (opened.2 first))]
      exact offer.closed
    refine ⟨target ▸ offer.leaf, opened, fun bare => ?_, closed⟩
    -- An entry that opens is no leaf, so a node without a target is not the first one.
    have leaf : e.opens = false := Entry.opens_of_isLeaf (offer.leaf.1 (target ▸ bare))
    have other : node.collapse ≠ .expanded := by
      intro expanded
      obtain ⟨low, opens, -⟩ := List.findIdx?_eq_some_iff_getElem.1 (opened.1 expanded)
      rw [(List.getElem?_eq_some_iff.1 entry).2, leaf] at opens
      cases opens
    rw [closed other, if_pos bare]
  case one =>
    intro i j a b left right first second
    exact Option.some.inj
      (((expanded_iff left).1 first).symm.trans ((expanded_iff right).1 second))
  case none =>
    rw [← List.findIdx?_eq_none_iff]
    constructor
    · intro all
      refine Option.eq_none_iff_forall_not_mem.2 (fun i first => ?_)
      obtain ⟨low, -⟩ := List.findIdx?_eq_some_iff_getElem.1 first
      have lengths := congrArg List.length (map_face_roots m t)
      simp only [List.length_map] at lengths
      have inside : i < (roots m t).length := lengths ▸ low
      exact all _ (List.getElem_mem inside)
        ((expanded_iff (List.getElem?_eq_getElem inside)).2 first)
    · intro closed node shown expanded
      obtain ⟨i, found⟩ := List.getElem?_of_mem shown
      rw [expanded_iff found, closed] at expanded
      cases expanded

end Outline

end CodeOutline
