import CodeOutline.Proofs.Token.Distinct
import CodeOutline.Syntax.Node

/-!
Walks over syntax trees, and what they leave in the head of an outline: its entities with their
names, and its namespace. The statements that a walk comes to are listed first, each with the
nodes around it; what the walk does is then told statement by statement.
-/

set_option autoImplicit false

namespace CodeOutline

open EntityToken (insertNew)

/-! ## Statements and what is around them -/

namespace Syntax

/-- The nodes that a walk goes on to from a node. -/
structure Descent where
  inner : Node → List Node
  smaller : ∀ {n c : Node}, c ∈ inner n → sizeOf c < sizeOf n

namespace Descent

/-- Into all nodes. -/
def whole : Descent := ⟨Node.children, Node.sizeOf_of_mem_children⟩

/-- The statements that a walk comes to, in the order of the source, each behind the nodes that it
stands in, from the outermost to the innermost. -/
def reached (descent : Descent) (above : List Node) (n : Node) : List (List Node × Node) :=
  (above, n) :: (descent.inner n).attach.flatMap (fun ⟨c, hc⟩ =>
    have := descent.smaller hc
    descent.reached (above ++ [n]) c)
termination_by sizeOf n

theorem reached_eq (descent : Descent) (above : List Node) (n : Node) :
    descent.reached above n =
      (above, n) :: (descent.inner n).flatMap (descent.reached (above ++ [n])) := by
  rw [reached]
  simp

theorem filterMap_reached {α : Type} (descent : Descent) (above : List Node) (n : Node)
    (pick : List Node × Node → Option α) :
    (descent.reached above n).filterMap pick = (pick (above, n)).toList ++
      (descent.inner n).flatMap (fun c => (descent.reached (above ++ [n]) c).filterMap pick) := by
  rw [reached_eq, List.filterMap_cons, List.filterMap_flatMap]
  cases pick (above, n) <;> rfl

/-- The node and all that a walk comes to from it, in the order of the source. -/
def all (descent : Descent) (n : Node) : List Node := (descent.reached [] n).map (·.2)

theorem map_snd_reached (descent : Descent) (above : List Node) (n : Node) :
    (descent.reached above n).map (·.2) = descent.all n := by
  have inner (around : List Node) :
      (descent.inner n).flatMap (fun c => (descent.reached around c).map (·.2)) =
        (descent.inner n).flatMap descent.all := by
    refine List.flatMap_congr (fun c member => ?_)
    have := descent.smaller member
    exact descent.map_snd_reached around c
  rw [all, reached_eq, reached_eq, List.map_cons, List.map_cons, List.map_flatMap, List.map_flatMap,
    inner, inner]
termination_by sizeOf n

theorem all_eq (descent : Descent) (n : Node) :
    descent.all n = n :: (descent.inner n).flatMap descent.all := by
  rw [all, reached_eq, List.map_cons, List.map_flatMap]
  exact congrArg _ (List.flatMap_congr (fun c _ => descent.map_snd_reached _ c))

end Descent

end Syntax

/-! ## The head of an outline -/

/-- What an outline shows of an entity on its line, and where. -/
def EntityToken.face (e : EntityToken) : String × Option Span := (e.name, e.span)

/-- An entity as an outline shows it. -/
structure Shown where
  kind : EntityKind
  name : String
  span : Option Span

namespace TokenTree

/-- The names of the entities of a kind, and where they stand. -/
def faces (t : TokenTree) (kind : EntityKind) : List (String × Option Span) :=
  (t.entitiesOf kind).map (·.face)

end TokenTree

theorem foldl_keeps {σ α β : Type} {f : σ → α → σ} (part : σ → β)
    (keeps : ∀ s a, part (f s a) = part s) (s : σ) (as : List α) :
    part (as.foldl f s) = part s := by
  induction as generalizing s with
  | nil => rfl
  | cons a as ih => exact (ih (f s a)).trans (keeps s a)

/-- The names and places of the entities of a kind. -/
def facesOf (kind : EntityKind) (shown : List Shown) : List (String × Option Span) :=
  (shown.filter (·.kind = kind)).map (fun s => (s.name, s.span))

theorem facesOf_append (kind : EntityKind) (shown more : List Shown) :
    facesOf kind (shown ++ more) = facesOf kind shown ++ facesOf kind more := by
  rw [facesOf, List.filter_append, List.map_append]
  rfl

structure SameHead (t t' : TokenTree) : Prop where
  space : t'.space = t.space
  entities : ∀ kind, t'.entitiesOf kind = t.entitiesOf kind

namespace SameHead

variable {t t' t'' : TokenTree}

theorem refl (t : TokenTree) : SameHead t t := ⟨rfl, fun _ => rfl⟩

theorem trans (one : SameHead t t') (other : SameHead t' t'') : SameHead t t'' :=
  ⟨other.space.trans one.space, fun kind => (other.entities kind).trans (one.entities kind)⟩

theorem foldl {α : Type} {f : TokenTree → α → TokenTree} (step : ∀ t a, SameHead t (f t a))
    (t : TokenTree) (as : List α) : SameHead t (as.foldl f t) := by
  induction as generalizing t with
  | nil => exact refl t
  | cons a as ih => exact (step t a).trans (ih (f t a))

end SameHead

structure Gains (t t' : TokenTree) (spaces : List String) (shown : List Shown) : Prop where
  space : t'.space = t.space.or (spaces.find? (· ≠ ""))
  entities : ∀ kind, t'.faces kind = (facesOf kind shown).foldl (insertNew Prod.fst) (t.faces kind)

namespace Gains

variable {t t' t'' : TokenTree} {spaces more : List String} {shown others : List Shown}

theorem of_sameHead (same : SameHead t t') : Gains t t' [] [] where
  space := by rw [same.space, List.find?_nil, Option.or_none]
  entities kind := by rw [TokenTree.faces, same.entities]; rfl

theorem refl (t : TokenTree) : Gains t t [] [] := of_sameHead (.refl t)

theorem trans (first : Gains t t' spaces shown) (second : Gains t' t'' more others) :
    Gains t t'' (spaces ++ more) (shown ++ others) where
  space := by rw [second.space, first.space, List.find?_append, Option.or_assoc]
  entities kind := by rw [second.entities, first.entities, facesOf_append, List.foldl_append]

theorem foldl {α : Type} {f : TokenTree → α → TokenTree} {spaces : α → List String}
    {shown : α → List Shown} {as : List α}
    (step : ∀ a ∈ as, ∀ t, Gains t (f t a) (spaces a) (shown a)) (t : TokenTree) :
    Gains t (as.foldl f t) (as.flatMap spaces) (as.flatMap shown) := by
  induction as generalizing t with
  | nil => exact refl t
  | cons a as ih =>
    rw [List.forall_mem_cons] at step
    exact (step.1 t).trans (ih step.2 (f t a))

theorem addEntity (t : TokenTree) (kind : EntityKind) {e : EntityToken} {name : String}
    {span : Option Span} (same : e.face = (name, span)) :
    Gains t (t.addEntity kind e) [] [⟨kind, name, span⟩] where
  space := by cases kind <;> simp [TokenTree.addEntity]
  entities k := by
    rw [TokenTree.faces, TokenTree.entitiesOf_addEntity]
    by_cases mine : kind = k
    · have listed : facesOf k [⟨kind, name, span⟩] = [e.face] := by
        simp [facesOf, mine, same]
      have mapped := insertNew_map EntityToken.name Prod.fst EntityToken.face
        (fun b (_ : b ∈ t.entitiesOf k) => rfl) (a := e)
      rw [if_pos mine, listed, ← mapped]
      rfl
    · have listed : facesOf k [⟨kind, name, span⟩] = [] := by simp [facesOf, mine]
      rw [if_neg mine, listed]
      rfl

theorem setFirst (t : TokenTree) (ns : String) :
    Gains t (if t.space.isNone then t.setSpace ns else t) [ns] [] := by
  cases known : t.space with
  | some old => exact ⟨by simp [known], fun kind => by simp [facesOf]⟩
  | none =>
    refine ⟨?_, fun kind => ?_⟩
    · by_cases empty : ns = ""
      · simp [TokenTree.setSpace, known, empty]
      · simp [TokenTree.setSpace, known, empty]
    · obtain ⟨space, changed⟩ := t.setSpace_frame ns
      rw [Option.isNone_none, if_pos rfl, changed]
      cases kind <;> rfl

theorem faces_eq (gains : Gains t t' spaces shown) (empty : ∀ kind, t.entitiesOf kind = [])
    (kind : EntityKind) : t'.faces kind = firsts Prod.fst (facesOf kind shown) := by
  rw [gains.entities, TokenTree.faces, empty, List.map_nil, foldl_insertNew_nil]

end Gains

end CodeOutline
