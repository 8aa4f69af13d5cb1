import CodeOutline.Proofs.Outline.Listing
import CodeOutline.Proofs.Outline.Order

/-!
The fully expanded outline shows each entry of the tree at one place, below the entry that
holds it, and nothing else.
-/

set_option autoImplicit false

namespace CodeOutline

namespace Outline

/-- A node without the parts that only say how it opens. -/
def Node.face (n : Node) : Node := { n with collapse := .none, target := none }

/-- What the node of an entry shows. -/
def Entry.face (m : Markers) : Entry → Node
  | .strict => leaf "Strict: Yes" .strict none
  | .header s => leaf s.title .section none
  | .importOf i => leaf (Label.importLabel i) .importOf i.span
  | .var v => memberLeaf (Label.typed v) .var v
  | .function f => memberLeaf (Label.method m f) .function f.toVarToken
  | .rule v => memberLeaf (Label.typed v) .rule v
  | .item v => memberLeaf (Label.typed v) .item v
  | .entity kind e =>
    { leaf (Label.entity m kind e) (.ofEntity kind) e.span with visibility := e.visibility }
  | .constant c => memberLeaf (Label.typed c) .constant c
  | .accessor a => memberLeaf (Label.accessor a) .accessor a.toVarToken
  | .property p => memberLeaf (Label.property m p) .property p.toVarToken
  | .usedTrait e => leaf e.name .usedTrait e.span
  | .method f => memberLeaf (Label.method m f) .method f.toVarToken
  | .media condition _ => leaf ("@media " ++ condition) .media none
  | .selector s ds => leaf s .selector (ds.head?.bind (·.span))
  | .declaration d => leaf (Label.declaration d) .declaration d.span
  | .data parent d => leaf (Label.data parent d) (.ofData d.kind) d.span

namespace Branch

def node : Branch → Node
  | ⟨node, _⟩ => node

mutual

/-- The node of a branch and all nodes below it. -/
def nodes : Branch → List Node
  | ⟨node, below⟩ => node :: nodesOf below

def nodesOf : List Branch → List Node
  | [] => []
  | b :: bs => nodes b ++ nodesOf bs

end

private theorem nodesOf_eq_flatMap (bs : List Branch) : nodesOf bs = bs.flatMap nodes := by
  induction bs with
  | nil => rfl
  | cons b bs ih => simp only [nodesOf, ih, List.flatMap_cons]

end Branch

/-- Every node below the branch has all its children. -/
inductive Expanded (m : Markers) (t : TokenTree) : Branch → Prop
  | mk {node : Node} {below : List Branch} (here : below.map Branch.node = children m t node)
      (deeper : ∀ b ∈ below, Expanded m t b) : Expanded m t (.mk node below)

/-- The branches start at the root nodes and go on as long as there are children. -/
structure IsExpansion (m : Markers) (t : TokenTree) (bs : List Branch) : Prop where
  start : bs.map Branch.node = roots m t
  deeper : ∀ b ∈ bs, Expanded m t b

/-- Each element of one list has its own partner in the other; none is left over. -/
def Pairing {α β : Type} (R : α → β → Prop) (as : List α) (bs : List β) : Prop :=
  ∃ pairs : List (α × β),
    pairs.map Prod.fst = as ∧ (pairs.map Prod.snd).Perm bs ∧ ∀ p ∈ pairs, R p.1 p.2

/-- The branch starts with the node of the entry, which has a target if there is something to
open, and its own branches show the entries that are nested in the entry, one each. -/
inductive Shows (m : Markers) (t : TokenTree) : Branch → Entry → Prop
  | mk {node : Node} {below : List Branch} {e : Entry} (pairs : List (Branch × Entry))
      (same : node.face = e.face m)
      (ends : node.target = none ↔ e.isLeaf = true)
      (branches : pairs.map Prod.fst = below)
      (entries : (pairs.map Prod.snd).Perm (e.nested t))
      (each : ∀ p ∈ pairs, Shows m t p.1 p.2) : Shows m t (.mk node below) e

namespace Pairing

variable {α β γ δ : Type} {R : α → β → Prop} {S : γ → β → Prop}

private theorem nil : Pairing R [] [] := ⟨[], rfl, .refl _, by simp⟩

private theorem single {a : α} {b : β} (holds : R a b) : Pairing R [a] [b] :=
  ⟨[(a, b)], rfl, .refl _, by simpa using holds⟩

private theorem append {as cs : List α} {bs ds : List β} (left : Pairing R as bs)
    (right : Pairing R cs ds) : Pairing R (as ++ cs) (bs ++ ds) := by
  obtain ⟨ps, rfl, lower, lowerHolds⟩ := left
  obtain ⟨qs, rfl, upper, upperHolds⟩ := right
  refine ⟨ps ++ qs, List.map_append, ?_, ?_⟩
  · rw [List.map_append]
    exact lower.append upper
  · intro p member
    rcases List.mem_append.1 member with member | member
    · exact lowerHolds p member
    · exact upperHolds p member

private theorem map {f : δ → α} {g : δ → β} {xs ys : List δ} (order : xs.Perm ys)
    (holds : ∀ x ∈ xs, R (f x) (g x)) : Pairing R (xs.map f) (ys.map g) := by
  refine ⟨xs.map (fun x => (f x, g x)), by simp, ?_, ?_⟩
  · rw [List.map_map]
    exact order.map g
  · intro p member
    obtain ⟨x, inside, rfl⟩ := List.mem_map.1 member
    exact holds x inside

private theorem mapIdx {f : Nat → δ → α} {g : δ → β} {xs : List δ}
    (holds : ∀ i x, xs[i]? = some x → R (f i x) (g x)) :
    Pairing R (xs.mapIdx f) (xs.map g) := by
  have values : xs.map g = xs.zipIdx.map (fun p => g p.1) := by
    conv_lhs => rw [← List.zipIdx_map_fst 0 xs, List.map_map]
    rfl
  rw [List.mapIdx_eq_zipIdx_map, values]
  refine map (.refl _) (fun p member => holds p.2 p.1 ?_)
  exact List.mem_zipIdx_iff_getElem?.1 member

private theorem transfer {f : α → γ} {as : List α} {bs : List β} (pairing : Pairing R as bs)
    (holds : ∀ a b, b ∈ bs → R a b → S (f a) b) : Pairing S (as.map f) bs := by
  obtain ⟨pairs, rfl, order, related⟩ := pairing
  refine ⟨pairs.map (fun p => (f p.1, p.2)), by simp, ?_, ?_⟩
  · rw [List.map_map]
    exact order
  · intro q member
    obtain ⟨p, inside, rfl⟩ := List.mem_map.1 member
    exact holds p.1 p.2 (order.mem_iff.1 (List.mem_map_of_mem inside)) (related p inside)

private theorem flatMap_perm {f : α → List γ} {g : β → List γ} {as : List α} {bs : List β}
    (pairing : Pairing R as bs) (same : ∀ a b, R a b → (f a).Perm (g b)) :
    (as.flatMap f).Perm (bs.flatMap g) := by
  obtain ⟨pairs, rfl, order, related⟩ := pairing
  have partners : ((pairs.map Prod.fst).flatMap f).Perm ((pairs.map Prod.snd).flatMap g) := by
    rw [List.flatMap_map, List.flatMap_map]
    exact List.Perm.flatMap_left _ (fun p member => same p.1 p.2 (related p member))
  exact partners.trans (order.flatMap_right g)

end Pairing

private inductive Reaches (t : TokenTree) : Option Target → Entry → Prop
  | header (s : Section) : Reaches t (some (.section s)) (.header s)
  | entity {kind : EntityKind} {index : Nat} {e : EntityToken}
      (found : (t.entitiesOf kind)[index]? = some e) :
      Reaches t (some (.entity kind index)) (.entity kind e)
  | media {condition : String} {m : SelectorMap} (found : t.media.get? condition = some m) :
      Reaches t (some (.media condition)) (.media condition m)
  | selector {s : String} {ds : List VarToken} (found : t.nodes.get? s = some ds) :
      Reaches t (some (.selector none s)) (.selector s ds)
  | inner {condition s : String} {m : SelectorMap} {ds : List VarToken}
      (block : t.media.get? condition = some m) (found : m.get? s = some ds) :
      Reaches t (some (.selector (some condition) s)) (.selector s ds)
  | data {path : List Nat} {parent : DataKind} {d : DataToken}
      (container : d.kind.isContainer = true)
      (found : t.data.bind (·.descendant? path) = some d) :
      Reaches t (some (.data path)) (.data parent d)
  | leaf {e : Entry} (ends : e.isLeaf = true) (bare : e.nested t = []) : Reaches t none e

private structure StandsFor (m : Markers) (t : TokenTree) (node : Node) (e : Entry) : Prop where
  face : node.face = e.face m
  reaches : Reaches t node.target e

section Nodes

variable {m : Markers} {t : TokenTree}

private theorem Reaches.isLeaf_iff {target : Option Target} {e : Entry}
    (reaches : Reaches t target e) : target = none ↔ e.isLeaf = true := by
  cases reaches with
  | data container => simp [Entry.isLeaf, container]
  | leaf ends => simp [ends]
  | header | entity | media | selector | inner => simp [Entry.isLeaf]

private theorem selectorNode_stands {media : Option String} {s : String} {ds : List VarToken}
    (reaches : Reaches t (some (.selector media s)) (.selector s ds)) :
    StandsFor m t (selectorNode media (s, ds)) (.selector s ds) :=
  ⟨rfl, reaches⟩

private theorem isProper_of_reached (proper : t.hasProperData = true) {path : List Nat}
    {d : DataToken} (found : t.data.bind (·.descendant? path) = some d) : d.isProper = true := by
  cases data : t.data with
  | none => simp [data] at found
  | some root =>
    rw [data] at found
    have sound : root.isProper = true := by simpa [TokenTree.hasProperData, data] using proper
    exact DataToken.isProper_of_descendant sound found

private theorem ofData_scalar {kind : DataKind} (scalar : ¬ kind.isContainer = true) :
    NodeKind.ofData kind = .value := by
  cases kind <;> simp_all [DataKind.isContainer, NodeKind.ofData]

private theorem scalar_stands {parent : DataKind} {d : DataToken} (sound : d.isProper = true)
    (scalar : ¬ d.kind.isContainer = true) :
    StandsFor m t (leaf (Label.data parent d) .value d.span) (.data parent d) := by
  have bare := ((DataToken.isProper_iff d).1 sound).1 (Bool.eq_false_iff.2 scalar)
  refine ⟨?_, .leaf ?_ ?_⟩
  · simp only [Entry.face, ofData_scalar scalar, Node.face, leaf]
  · simpa [Entry.isLeaf] using scalar
  · simp only [Entry.nested, Entry.ofChildren, bare, List.map_nil]

private theorem dataNodes_pair (proper : t.hasProperData = true) {path : List Nat}
    {d : DataToken} (found : t.data.bind (·.descendant? path) = some d) :
    Pairing (StandsFor m t) (dataNodes d path) (Entry.ofChildren d) := by
  refine Pairing.mapIdx (fun i c child => ?_)
  have deeper : t.data.bind (·.descendant? (path ++ [i])) = some c := by
    cases data : t.data with
    | none => simp [data] at found
    | some root =>
      simp only [data, Option.bind_some] at found ⊢
      rw [DataToken.descendant?_append, found]
      exact child
  unfold dataNode
  by_cases container : c.kind.isContainer = true
  · rw [if_pos container]
    exact ⟨rfl, .data container deeper⟩
  · rw [if_neg container]
    exact scalar_stands (isProper_of_reached proper deeper) container

private theorem sectionNodes_pair (s : Section) :
    Pairing (StandsFor m t) (sectionNodes m t s) (Entry.ofSection t s) := by
  cases s <;> exact Pairing.map (Member.sort_perm _) (fun _ _ => ⟨rfl, .leaf rfl rfl⟩)

private theorem memberNodes_pair (kind : EntityKind) (e : EntityToken) :
    Pairing (StandsFor m t) (memberNodes m kind e) (Entry.ofMembers kind e) := by
  have constants : Pairing (StandsFor m t) (varLeaves .constant e.constants)
      (e.constants.map .constant) := .map (Member.sort_perm _) (fun _ _ => ⟨rfl, .leaf rfl rfl⟩)
  refine .append (.append (.append (.append constants ?_) ?_) ?_) ?_
  · split
    · exact .map (Member.sort_perm _) (fun _ _ => ⟨rfl, .leaf rfl rfl⟩)
    · exact .nil
  · exact .map (Member.sort_perm _) (fun _ _ => ⟨rfl, .leaf rfl rfl⟩)
  · split
    · exact .nil
    · exact .map (Member.sort_perm _) (fun _ _ => ⟨rfl, .leaf rfl rfl⟩)
  · exact .map (Member.sort_perm _) (fun _ _ => ⟨rfl, .leaf rfl rfl⟩)

private theorem declarationNodes_pair {map : SelectorMap} {s : String} {ds : List VarToken}
    (found : map.get? s = some ds) :
    Pairing (StandsFor m t) (declarationNodes map s) (ds.map .declaration) := by
  simp only [declarationNodes, found, Option.getD_some]
  exact Pairing.map (.refl _) (fun _ _ => ⟨rfl, .leaf rfl rfl⟩)

private theorem children_pair (proper : t.hasProperData = true) {node : Node} {e : Entry}
    (reaches : Reaches t node.target e) :
    Pairing (StandsFor m t) (children m t node) (e.nested t) := by
  unfold children
  generalize node.target = target at reaches
  cases reaches with
  | header s => exact sectionNodes_pair s
  | entity found =>
    simp only [childrenOf, found]
    exact memberNodes_pair _ _
  | media found =>
    simp only [childrenOf, found, Option.getD_some]
    refine Pairing.map (.refl _) (fun entry member => selectorNode_stands ?_)
    exact .inner found ((OrderedMap.get?_eq_some_iff _ _ _).2 member)
  | selector found => exact declarationNodes_pair found
  | inner block found =>
    simp only [childrenOf, block, Option.getD_some]
    exact declarationNodes_pair found
  | data _ found =>
    simp only [childrenOf, found]
    exact dataNodes_pair proper found
  | leaf _ bare =>
    rw [bare]
    exact .nil

theorem offerOpen_cases (offers : List (Node × Bool)) :
    ((∀ o ∈ offers, o.2 = false) ∧ offerOpen offers = offers.map Prod.fst) ∨
      ∃ before node after, offers = before ++ (node, true) :: after ∧
        (∀ o ∈ before, o.2 = false) ∧
        offerOpen offers = before.map Prod.fst ++
          { node with collapse := .expanded } :: after.map Prod.fst := by
  induction offers with
  | nil => exact .inl ⟨by simp, rfl⟩
  | cons offer offers ih =>
    obtain ⟨node, eligible⟩ := offer
    cases eligible with
    | true => exact .inr ⟨[], node, offers, rfl, by simp, rfl⟩
    | false =>
      rcases ih with ⟨closed, same⟩ | ⟨before, first, after, rfl, closed, same⟩
      · refine .inl ⟨?_, by simp only [offerOpen, same, List.map_cons]⟩
        simpa using closed
      · refine .inr ⟨(node, false) :: before, first, after, rfl, ?_, ?_⟩
        · simpa using closed
        · simp only [offerOpen, same, List.map_cons, List.cons_append]

private theorem StandsFor.opened {node : Node} {e : Entry} (stands : StandsFor m t node e)
    (collapse : Collapse) : StandsFor m t { node with collapse } e :=
  ⟨stands.face, stands.reaches⟩

private theorem offerOpen_pair {offers : List (Node × Bool)} {es : List Entry}
    (pairing : Pairing (StandsFor m t) (offers.map Prod.fst) es) :
    Pairing (StandsFor m t) (offerOpen offers) es := by
  rcases offerOpen_cases offers with ⟨-, same⟩ | ⟨before, node, after, rfl, -, same⟩
  · rw [same]
    exact pairing
  · rw [same]
    obtain ⟨pairs, nodes, order, stand⟩ := pairing
    rw [List.map_append, List.map_cons] at nodes
    obtain ⟨lower, upper, rfl, low, high⟩ := List.map_eq_append_iff.1 nodes
    obtain ⟨p, rest, rfl, rfl, tail⟩ := List.map_eq_cons_iff.1 high
    refine ⟨lower ++ ({ p.1 with collapse := .expanded }, p.2) :: rest, ?_, ?_, ?_⟩
    · simp only [List.map_append, List.map_cons, low, tail]
    · simpa only [List.map_append, List.map_cons] using order
    · intro q member
      rcases List.mem_append.1 member with member | member
      · exact stand q (List.mem_append_left _ member)
      · rcases List.mem_cons.1 member with rfl | member
        · exact (stand p (List.mem_append_right _ List.mem_cons_self)).opened .expanded
        · exact stand q (List.mem_append_right _ (List.mem_cons_of_mem _ member))

private theorem entities_pair (kinds : List EntityKind) :
    Pairing (StandsFor m t) (kinds.flatMap (entityNodes m t))
      ((kinds.flatMap (fun k => (t.entitiesOf k).map (fun e => (k, e)))).map
        (fun (kind, e) => .entity kind e)) := by
  induction kinds with
  | nil => exact .nil
  | cons kind kinds ih =>
    rw [List.flatMap_cons, List.flatMap_cons, List.map_append, List.map_map]
    exact .append (.mapIdx (fun _ _ found => ⟨rfl, .entity found⟩)) ih

private theorem dataRoots_pair (proper : t.hasProperData = true) :
    Pairing (StandsFor m t) ((dataRoots t).map Prod.fst) (Entry.rootValues t) := by
  unfold dataRoots Entry.rootValues
  cases data : t.data with
  | none => exact .nil
  | some root =>
    have found : t.data.bind (·.descendant? []) = some root := by rw [data]; rfl
    by_cases container : root.kind.isContainer = true
    · simp only [if_pos container, List.map_map, Function.comp_def, List.map_id']
      exact dataNodes_pair proper found
    · simp only [if_neg container, List.map_cons, List.map_nil]
      exact .single (scalar_stands (isProper_of_reached proper found) container)

private theorem roots_pair (proper : t.hasProperData = true) :
    Pairing (StandsFor m t) (roots m t) (Entry.outermost t) := by
  refine offerOpen_pair ?_
  simp only [rootOffers, List.map_append, List.map_map, Function.comp_def, List.map_id']
  refine .append (.append (.append (.append (.append ?strict ?headers) ?entities) ?media)
    ?selectors) (dataRoots_pair proper)
  case strict =>
    split
    · exact .single ⟨rfl, .leaf rfl rfl⟩
    · exact .nil
  case headers => exact .map (.refl _) (fun s _ => ⟨rfl, .header s⟩)
  case entities => exact entities_pair _
  case media =>
    rw [OrderedMap.keys, List.map_map]
    refine .map (.refl _) (fun entry member => ⟨rfl, .media ?_⟩)
    exact (OrderedMap.get?_eq_some_iff _ _ _).2 member
  case selectors =>
    refine .map (.refl _) (fun entry member => selectorNode_stands (.selector ?_))
    exact (OrderedMap.get?_eq_some_iff _ _ _).2 member

end Nodes

private theorem eq_of_map_node {as bs : List Branch}
    (unique : ∀ a ∈ as, ∀ b ∈ bs, a.node = b.node → a = b)
    (same : as.map Branch.node = bs.map Branch.node) : as = bs := by
  induction as generalizing bs with
  | nil => exact (List.map_eq_nil_iff.1 same.symm).symm
  | cons a as ih =>
    obtain ⟨b, bs, rfl, first, rest⟩ := List.map_eq_cons_iff.1 same.symm
    rw [unique a List.mem_cons_self b List.mem_cons_self first.symm]
    rw [ih (fun x left y right =>
      unique x (List.mem_cons_of_mem _ left) y (List.mem_cons_of_mem _ right)) rest.symm]

theorem Expanded.unique {m : Markers} {t : TokenTree} {a b : Branch} (left : Expanded m t a)
    (right : Expanded m t b) (same : a.node = b.node) : a = b := by
  induction left generalizing b with
  | @mk node below here deeper ih =>
    obtain ⟨there, lower⟩ := right
    obtain rfl := same
    exact congrArg _ (eq_of_map_node (fun x left y right => ih x left (lower y right))
      (here.trans there.symm))

private structure Covers (m : Markers) (t : TokenTree) (b : Branch) (e : Entry) : Prop where
  expanded : Expanded m t b
  shows : Shows m t b e
  nodes : (b.nodes.map Node.face).Perm ((e.within t).map (Entry.face m))

section Expansion

variable {m : Markers} {t : TokenTree}

private theorem faces_perm {bs : List Branch} {es : List Entry}
    (covered : Pairing (Covers m t) bs es) :
    ((bs.flatMap Branch.nodes).map Node.face).Perm
      ((es.flatMap (Entry.within t)).map (Entry.face m)) := by
  rw [List.map_flatMap, List.map_flatMap]
  exact covered.flatMap_perm (fun _ _ covers => covers.nodes)

private theorem Covers.of_children {node : Node} {below : List Branch} {e : Entry}
    (stands : StandsFor m t node e) (here : below.map Branch.node = children m t node)
    (covered : Pairing (Covers m t) below (e.nested t)) : Covers m t (.mk node below) e := by
  have nodes : ((Branch.mk node below).nodes.map Node.face).Perm
      ((e.within t).map (Entry.face m)) := by
    rw [Branch.nodes, Branch.nodesOf_eq_flatMap, Entry.within_eq, List.map_cons, List.map_cons,
      stands.face]
    exact (faces_perm covered).cons _
  obtain ⟨pairs, rfl, order, each⟩ := covered
  refine ⟨.mk here ?_, ?_, nodes⟩
  · intro b member
    obtain ⟨p, inside, rfl⟩ := List.mem_map.1 member
    exact (each p inside).expanded
  · exact .mk pairs stands.face stands.reaches.isLeaf_iff rfl order
      (fun p member => (each p member).shows)

private theorem node_expandTo (depth : Nat) (node : Node) :
    (expandTo m t depth node).node = node := by
  cases depth <;> rfl

private theorem map_node_expandTo (depth : Nat) (nodes : List Node) :
    (nodes.map (expandTo m t depth)).map Branch.node = nodes := by
  simp only [List.map_map, Function.comp_def, node_expandTo, List.map_id']

private theorem expandTo_covers (proper : t.hasProperData = true) {depth : Nat} {node : Node}
    {e : Entry} (stands : StandsFor m t node e) (deep : e.height ≤ depth) :
    Covers m t (expandTo m t depth node) e := by
  -- The levels left bound the height of the entry, so the last node has nothing below it.
  induction depth generalizing node e with
  | zero =>
    have bare : e.nested t = [] := by
      refine List.eq_nil_iff_forall_not_mem.2 (fun x inside => ?_)
      have := Entry.height_lt_of_nested inside
      omega
    have pairing := children_pair (m := m) proper stands.reaches
    rw [bare] at pairing
    obtain ⟨pairs, nodes, order, -⟩ := pairing
    obtain rfl : pairs = [] := List.map_eq_nil_iff.1 order.eq_nil
    refine Covers.of_children stands nodes ?_
    rw [bare]
    exact .nil
  | succ depth ih =>
    refine Covers.of_children stands (map_node_expandTo depth _) ?_
    refine (children_pair proper stands.reaches).transfer (fun child x inside stands => ?_)
    have := Entry.height_lt_of_nested inside
    exact ih stands (by omega)

private theorem height_le_depthBound {e : Entry} (outer : e ∈ Entry.outermost t) :
    e.height ≤ depthBound t := by
  have two : 2 ≤ depthBound t := by
    unfold depthBound
    split <;> omega
  simp only [Entry.outermost, List.mem_append, List.mem_map] at outer
  rcases outer with
    ((((strict | ⟨s, -, rfl⟩) | ⟨entity, -, rfl⟩) | ⟨media, -, rfl⟩) | selector) | value
  · split at strict
    · obtain rfl := List.mem_singleton.1 strict
      exact Nat.zero_le _
    · cases strict
  · exact Nat.le_of_succ_le two
  · exact Nat.le_of_succ_le two
  · exact two
  · obtain ⟨entry, -, rfl⟩ := List.mem_map.1 selector
    exact Nat.le_of_succ_le two
  · unfold Entry.rootValues at value
    unfold depthBound
    cases data : t.data with
    | none => simp [data] at value
    | some root =>
      simp only [data] at value ⊢
      split at value
      · obtain ⟨d, member, rfl⟩ := List.mem_map.1 value
        have := DataToken.height_lt_of_mem member
        simp only [Entry.height]
        omega
      · obtain rfl := List.mem_singleton.1 value
        simp only [Entry.height]
        omega

/-- The outline has one full expansion. It shows the outermost entries and below each the
entries nested in it, and its nodes are those of all listed entries, one for each. -/
theorem expand_lossless (m : Markers) (t : TokenTree) (proper : t.hasProperData = true) :
    (∀ bs, IsExpansion m t bs ↔ bs = expand m t) ∧
      Pairing (Shows m t) (expand m t) (Entry.outermost t) ∧
      (((expand m t).flatMap Branch.nodes).map Node.face).Perm
        ((Entry.listed t).map (Entry.face m)) := by
  have covered : Pairing (Covers m t) (expand m t) (Entry.outermost t) :=
    (roots_pair proper).transfer
      (fun _ _ outer stands => expandTo_covers proper stands (height_le_depthBound outer))
  have full : IsExpansion m t (expand m t) := by
    refine ⟨map_node_expandTo _ _, fun b member => ?_⟩
    obtain ⟨pairs, branches, -, each⟩ := covered
    rw [← branches] at member
    obtain ⟨p, inside, rfl⟩ := List.mem_map.1 member
    exact (each p inside).expanded
  refine ⟨fun bs => ⟨fun expansion => ?_, fun same => same ▸ full⟩, ?_, ?_⟩
  · refine eq_of_map_node (fun a left b right => ?_) (expansion.start.trans full.start.symm)
    exact (expansion.deeper a left).unique (full.deeper b right)
  · obtain ⟨pairs, branches, order, each⟩ := covered
    exact ⟨pairs, branches, order, fun p member => (each p member).shows⟩
  · exact (faces_perm covered).trans ((Entry.outermost_within_perm proper).map _)

end Expansion

/-- A strict tree with a function, a class with three members, a media block and an object
inside an array. -/
def mixedTree : TokenTree where
  strict := some true
  functions := [{ name := "boot" }]
  classes := [
    { name := "Shop", accessors := [{ name := "total", direction := .get }],
      methods := [{ name := "run" }], traits := [{ name := "Audit" }] }]
  media := .ofPairs [("print", .ofPairs [("h1", [{ name := "color" }])])]
  data := some
    { name := "", kind := .array,
      children := [
        { name := "0", kind := .object, children := [{ name := "id", value := some "7" }] }] }

theorem expand_lossless_mixedTree :
    mixedTree.hasProperData = true ∧
      ((expand default mixedTree).flatMap Branch.nodes).length = 12 := by
  have proper : mixedTree.hasProperData = true := by decide
  obtain ⟨-, -, nodes⟩ := expand_lossless default mixedTree proper
  have counted := nodes.length_eq
  rw [List.length_map, List.length_map] at counted
  exact ⟨proper, counted.trans (by decide)⟩

end Outline

end CodeOutline
