import CodeOutline.Outline.Projection
import Mathlib.Data.List.Forall2
import Mathlib.Data.List.Nodup
import Mathlib.Data.List.Pairwise
import Mathlib.Data.Prod.Lex
import Mathlib.Data.String.Basic

/-!
The display order of members, and what sorting by it leaves of a list: the same members, ordered
by their keys, and those of one key as they came. Where no two keys are equal, the order of the
source leaves no trace in an outline.
-/

set_option autoImplicit false

namespace CodeOutline

namespace Member

/-- A rank, whether the member belongs to an instance, and a name by its code points; compared
from left to right. -/
abbrev Key : Type := ℕ ×ₗ Bool ×ₗ List Char

section Keys

variable {α : Type} [Member α]

/-- What a member is ordered by. -/
def key (a : α) : Key := toLex ((visibility a).rank, toLex (!isStatic a, (name a).toList))

theorem le_iff (a b : α) : le a b = true ↔ key a ≤ key b := by
  simp only [le, key, Prod.Lex.toLex_le_toLex]
  rcases Nat.lt_trichotomy (visibility a).rank (visibility b).rank with less | same | more
  · simp [less]
  · rw [same, if_neg (Nat.lt_irrefl _), if_neg (Nat.lt_irrefl _)]
    cases isStatic a <;> cases isStatic b <;> simp [String.le_iff_toList_le]
  · simp [more, Nat.not_lt_of_gt more, more.ne']

theorem isPreorder_le : IsPreorder α (fun a b => le a b = true) where
  refl a := (le_iff a a).2 le_rfl
  trans a b c left right := (le_iff a c).2 (((le_iff a b).1 left).trans ((le_iff b c).1 right))

theorem total_le : Std.Total (fun a b : α => le a b = true) where
  total a b := (le_total (key a) (key b)).imp (le_iff a b).2 (le_iff b a).2

/-- The members as they are shown: by their keys, and those of one key as they came. -/
structure IsSorting (sorted members : List α) : Prop where
  perm : sorted.Perm members
  ordered : sorted.Pairwise (fun a b => key a ≤ key b)
  stable : ∀ k, sorted.filter (key · = k) = members.filter (key · = k)

private theorem sort_trans (a b c : α) (left : le a b = true) (right : le b c = true) :
    le a c = true :=
  isPreorder_le.trans a b c left right

private theorem sort_total (a b : α) : (le a b || le b a) = true :=
  Bool.or_eq_true_iff.2 (total_le.total a b)

theorem sort_perm (members : List α) : (sort members).Perm members := List.mergeSort_perm members le

theorem sort_pairwise (members : List α) : (sort members).Pairwise (le · ·) :=
  List.pairwise_mergeSort sort_trans sort_total members

theorem filter_sort (members : List α) (k : Key) :
    (sort members).filter (key · = k) = members.filter (key · = k) := by
  have equal : (members.filter (key · = k)).Pairwise (le · ·) := by
    refine List.pairwise_of_forall_mem_list fun a first b second => ?_
    have left := of_decide_eq_true (List.mem_filter.1 first).2
    have right := of_decide_eq_true (List.mem_filter.1 second).2
    exact (le_iff a b).2 (left.trans right.symm).le
  have inside : (members.filter (key · = k)).Sublist (sort members) :=
    List.sublist_mergeSort sort_trans sort_total equal List.filter_sublist
  have kept := inside.filter (key · = k)
  rw [List.filter_filter] at kept
  simp only [Bool.and_self] at kept
  exact (kept.eq_of_length ((sort_perm members).filter _).length_eq.symm).symm

theorem isSorting_sort (members : List α) : IsSorting (sort members) members where
  perm := sort_perm members
  ordered := (sort_pairwise members).imp (le_iff _ _).1
  stable := filter_sort members

theorem sort_sort (members : List α) : sort (sort members) = sort members :=
  List.mergeSort_of_pairwise (sort_pairwise members)

theorem sort_eq_of_perm {xs ys : List α} (moved : xs.Perm ys) (distinct : (xs.map key).Nodup) :
    sort xs = sort ys := by
  have order := (sort_perm xs).trans (moved.trans (sort_perm ys).symm)
  refine order.eq_of_pairwise ?_ (sort_pairwise xs) (sort_pairwise ys)
  intro a b left right before after
  have same := le_antisymm ((le_iff a b).1 before) ((le_iff b a).1 after)
  have a_mem := (sort_perm xs).mem_iff.1 left
  have b_mem := moved.mem_iff.2 ((sort_perm ys).mem_iff.1 right)
  exact List.inj_on_of_nodup_map distinct a_mem b_mem same

theorem map_sort {β : Type} [Member β] {f : α → β} (same : ∀ a, key (f a) = key a)
    (members : List α) : (sort members).map f = sort (members.map f) := by
  refine List.map_mergeSort fun a _ b _ => ?_
  rw [Bool.eq_iff_iff, le_iff, le_iff, same, same]

end Keys

end Member

/-! Outlines of the same tokens in another order. -/

open Member (Key key)

/-- What an entity shows of itself, without its members. -/
def EntityToken.head (e : EntityToken) : EntityToken :=
  { e with constants := [], properties := [], accessors := [], methods := [], traits := [] }

/-- One entity, its members in any order; of a used trait only the head counts. -/
structure EntityToken.SameMembers (e f : EntityToken) : Prop where
  head : e.head = f.head
  constants : e.constants.Perm f.constants
  properties : e.properties.Perm f.properties
  accessors : e.accessors.Perm f.accessors
  methods : e.methods.Perm f.methods
  traits : (e.traits.map EntityToken.head).Perm (f.traits.map EntityToken.head)

/-- No two constants of the entity have one key, no two properties, and so on. -/
structure EntityToken.HasDistinctKeys (e : EntityToken) : Prop where
  constants : (e.constants.map key).Nodup
  properties : (e.properties.map key).Nodup
  accessors : (e.accessors.map key).Nodup
  methods : (e.methods.map key).Nodup
  traits : (e.traits.map key).Nodup

/-- Trees of the same tokens: the sections and the entities of each kind in any order, and the
members of each entity in any order. -/
structure TokenTree.SameTokens (t u : TokenTree) : Prop where
  imports : t.imports.Perm u.imports
  vars : t.vars.Perm u.vars
  functions : t.functions.Perm u.functions
  rules : t.rules.Perm u.rules
  items : t.items.Perm u.items
  entities : ∀ kind, ∃ moved, (t.entitiesOf kind).Perm moved ∧
    List.Forall₂ EntityToken.SameMembers moved (u.entitiesOf kind)

namespace Outline

/-- The keys of the tokens below a heading. -/
def Section.keys (t : TokenTree) : Section → List Key
  | .imports => t.imports.map key
  | .vars => t.vars.map key
  | .functions => t.functions.map key
  | .rules => t.rules.map key
  | .items => t.items.map key

variable {t u : TokenTree}

private theorem varLeaves_of_perm {kind : NodeKind} {vs ws : List VarToken} (moved : vs.Perm ws)
    (distinct : (vs.map key).Nodup) : varLeaves kind vs = varLeaves kind ws := by
  rw [varLeaves, varLeaves, Member.sort_eq_of_perm moved distinct]

theorem sectionNodes_of_sameTokens (m : Markers) (same : t.SameTokens u) {s : Section}
    (distinct : (s.keys t).Nodup) : sectionNodes m t s = sectionNodes m u s := by
  cases s with
  | imports =>
    rw [sectionNodes, sectionNodes, Member.sort_eq_of_perm same.imports distinct]
  | vars => exact varLeaves_of_perm same.vars distinct
  | rules => exact varLeaves_of_perm same.rules distinct
  | items => exact varLeaves_of_perm same.items distinct
  | functions =>
    rw [sectionNodes, sectionNodes, Member.sort_eq_of_perm same.functions distinct]

private theorem traitLeaves_of_perm {ts us : List EntityToken}
    (moved : (ts.map EntityToken.head).Perm (us.map EntityToken.head))
    (distinct : (ts.map key).Nodup) :
    (Member.sort ts).map (fun u => leaf u.name .usedTrait u.span) =
      (Member.sort us).map (fun u => leaf u.name .usedTrait u.span) := by
  have heads (es : List EntityToken) :
      (Member.sort es).map (fun u => leaf u.name .usedTrait u.span) =
        (Member.sort (es.map EntityToken.head)).map (fun u => leaf u.name .usedTrait u.span) := by
    rw [← Member.map_sort (f := EntityToken.head) (fun _ => rfl), List.map_map]
    rfl
  have apart : ((ts.map EntityToken.head).map key).Nodup := by
    rw [List.map_map]
    exact distinct
  rw [heads ts, heads us, Member.sort_eq_of_perm moved apart]

theorem memberNodes_of_sameMembers (m : Markers) (kind : EntityKind) {e f : EntityToken}
    (same : e.SameMembers f) (distinct : e.HasDistinctKeys) :
    memberNodes m kind e = memberNodes m kind f := by
  rw [memberNodes, memberNodes, varLeaves_of_perm same.constants distinct.constants,
    Member.sort_eq_of_perm same.accessors distinct.accessors,
    Member.sort_eq_of_perm same.properties distinct.properties,
    traitLeaves_of_perm same.traits distinct.traits,
    Member.sort_eq_of_perm same.methods distinct.methods]

theorem exists_sameMembers (same : t.SameTokens u) {kind : EntityKind} {i : Nat} {e : EntityToken}
    (here : (t.entitiesOf kind)[i]? = some e) :
    ∃ (j : Nat) (f : EntityToken), (u.entitiesOf kind)[j]? = some f ∧ e.SameMembers f := by
  obtain ⟨moved, order, each⟩ := same.entities kind
  obtain ⟨j, there⟩ := List.getElem?_of_mem (order.mem_iff.1 (List.mem_of_getElem? here))
  obtain ⟨inside, rfl⟩ := List.getElem?_eq_some_iff.1 there
  exact ⟨j, _, List.getElem?_eq_getElem (each.length_eq ▸ inside), each.get inside _⟩

/-- Members of every kind have a total preorder, that of their keys, and are sorted by it with
nothing lost and equal keys left as they came; a sorted list stays as it is. Where keys are
distinct, a heading and an entity show the same children for trees of the same tokens. -/
theorem members_sorted :
    (∀ (α : Type) [Member α],
      IsPreorder α (fun a b => Member.le a b = true) ∧
        Std.Total (fun a b : α => Member.le a b = true) ∧
        (∀ a b : α, Member.le a b = true ↔ key a ≤ key b) ∧
        ∀ members : List α, Member.IsSorting (Member.sort members) members ∧
          Member.sort (Member.sort members) = Member.sort members) ∧
      ∀ (m : Markers) (t u : TokenTree), t.SameTokens u →
        (∀ s : Section, (s.keys t).Nodup →
          childrenOf m t (.section s) = childrenOf m u (.section s)) ∧
        ∀ (kind : EntityKind) (i : Nat) (e : EntityToken), (t.entitiesOf kind)[i]? = some e →
          ∃ (j : Nat) (f : EntityToken), (u.entitiesOf kind)[j]? = some f ∧ e.SameMembers f ∧
            (e.HasDistinctKeys →
              childrenOf m t (.entity kind i) = childrenOf m u (.entity kind j)) := by
  refine ⟨fun α _ => ⟨Member.isPreorder_le, Member.total_le, Member.le_iff, ?sorted⟩, ?children⟩
  case sorted =>
    intro members
    exact ⟨Member.isSorting_sort members, Member.sort_sort members⟩
  case children =>
    intro m t u same
    refine ⟨fun s distinct => sectionNodes_of_sameTokens m same distinct, ?_⟩
    intro kind i e here
    obtain ⟨j, f, there, alike⟩ := exists_sameMembers same here
    refine ⟨j, f, there, alike, fun distinct => ?_⟩
    rw [childrenOf, childrenOf, here, there]
    exact memberNodes_of_sameMembers m kind alike distinct

/-- Two functions, and two classes of which one has methods. -/
def forwardTree : TokenTree where
  functions := [{ name := "main" }, { name := "boot", visibility := .priv }]
  classes :=
    [{ name := "Cart", methods := [{ name := "add" }, { name := "of", isStatic := true }] },
      { name := "Shop" }]

/-- The same tokens from the last to the first. -/
def backwardTree : TokenTree where
  functions := [{ name := "boot", visibility := .priv }, { name := "main" }]
  classes :=
    [{ name := "Shop" },
      { name := "Cart", methods := [{ name := "of", isStatic := true }, { name := "add" }] }]

theorem members_sorted_backward :
    forwardTree.SameTokens backwardTree ∧
      childrenOf ⟨"+", "-"⟩ forwardTree (.section .functions) =
        childrenOf ⟨"+", "-"⟩ backwardTree (.section .functions) ∧
      ∃ j f, backwardTree.classes[j]? = some f ∧ f.name = "Cart" ∧
        childrenOf ⟨"+", "-"⟩ forwardTree (.entity .class 0) =
          childrenOf ⟨"+", "-"⟩ backwardTree (.entity .class j) := by
  have entities (kind : EntityKind) : ∃ moved, (forwardTree.entitiesOf kind).Perm moved ∧
      List.Forall₂ EntityToken.SameMembers moved (backwardTree.entitiesOf kind) := by
    cases kind with
    | interface | trait => exact ⟨[], .nil, .nil⟩
    | «class» =>
      refine ⟨_, .swap .., .cons ?shop (.cons ?cart .nil)⟩
      case shop => exact ⟨rfl, .refl _, .refl _, .refl _, .refl _, .refl _⟩
      case cart => exact ⟨rfl, .refl _, .refl _, .refl _, .swap .., .refl _⟩
  have same : forwardTree.SameTokens backwardTree :=
    ⟨.refl _, .refl _, .swap .., .refl _, .refl _, entities⟩
  obtain ⟨functions, entity⟩ := members_sorted.2 ⟨"+", "-"⟩ forwardTree backwardTree same
  obtain ⟨j, f, there, alike, shown⟩ := entity .class 0 _ rfl
  have named : f.name = "Cart" := (congrArg EntityToken.name alike.head).symm
  have distinct : EntityToken.HasDistinctKeys
      { name := "Cart", methods := [{ name := "add" }, { name := "of", isStatic := true }] } :=
    ⟨.nil, .nil, .nil, by decide, .nil⟩
  exact ⟨same, functions .functions (by decide), j, f, there, named, shown distinct⟩

end Outline

end CodeOutline
