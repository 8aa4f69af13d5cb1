import Mathlib.Data.List.Forall2
import Mathlib.Data.List.Nodup

/-!
Lists and options whose elements are related one by one: how maps make such lists, and that a map
which does not tell related elements apart makes them equal. And lists whose elements are related
to those behind them, because they are sorted.
-/

set_option autoImplicit false

namespace CodeOutline

theorem rel_map {α : Type} {R : α → α → Prop} {g : α → α} (each : ∀ a, R a (g a))
    (o : Option α) : Option.Rel R o (o.map g) := by
  cases o with
  | none => exact .none
  | some a => exact .some (each a)

theorem forall₂_self_map {α : Type} {R : α → α → Prop} {g : α → α}
    (each : ∀ a, R a (g a)) (as : List α) : List.Forall₂ R as (as.map g) :=
  List.forall₂_map_right_iff.2 (List.forall₂_same.2 (fun a _ => each a))

theorem forall₂_map {α β γ : Type} {R : β → γ → Prop} {f : α → β} {g : α → γ}
    (as : List α) (each : ∀ a ∈ as, R (f a) (g a)) : List.Forall₂ R (as.map f) (as.map g) := by
  rw [List.forall₂_map_left_iff, List.forall₂_map_right_iff, List.forall₂_same]
  exact each

theorem forall₂_mapIdx {α β γ : Type} {R : β → γ → Prop} {f : Nat → α → β} {g : α → γ}
    (as : List α) (each : ∀ i a, R (f i a) (g a)) :
    List.Forall₂ R (as.mapIdx f) (as.map g) := by
  rw [List.forall₂_map_right_iff]
  refine List.forall₂_iff_get.2 ⟨List.length_mapIdx, fun i lower upper => ?_⟩
  simpa only [List.get_eq_getElem, List.getElem_mapIdx] using each i as[i]

variable {α β γ : Type} {R : α → β → Prop} {as : List α} {bs : List β}

theorem map_eq_of_forall₂ {f : α → γ} {g : β → γ} (related : List.Forall₂ R as bs)
    (each : ∀ a b, R a b → f a = g b) : as.map f = bs.map g := by
  rw [← List.forall₂_eq_eq_eq, List.forall₂_map_left_iff, List.forall₂_map_right_iff]
  exact related.imp each

theorem forall₂_filter {p : α → Bool} {q : β → Bool} (related : List.Forall₂ R as bs)
    (each : ∀ a b, R a b → p a = q b) : List.Forall₂ R (as.filter p) (bs.filter q) :=
  List.rel_filter (fun a b alike => Bool.eq_iff_iff.1 (each a b alike)) related

theorem forall₂_filterMap {q : α → Bool} {f : α → Option β}
    (out : ∀ a ∈ as, q a = false → f a = none)
    (in_ : ∀ a ∈ as, q a = true → ∃ b, f a = some b ∧ R a b) :
    List.Forall₂ R (as.filter q) (as.filterMap f) := by
  induction as with
  | nil => exact .nil
  | cons a as ih =>
    obtain ⟨first, others⟩ := List.forall_mem_cons.1 out
    obtain ⟨first', others'⟩ := List.forall_mem_cons.1 in_
    cases chosen : q a with
    | false =>
      rw [List.filter_cons_of_neg (by simp [chosen]), List.filterMap_cons_none (first chosen)]
      exact ih others others'
    | true =>
      obtain ⟨b, made, related⟩ := first' chosen
      rw [List.filter_cons_of_pos chosen, List.filterMap_cons_some made]
      exact .cons related (ih others others')

theorem pairwise_mergeSort_of_nodup {le : α → α → Bool} {key : α → β}
    (trans : ∀ a b c, le a b = true → le b c = true → le a c = true)
    (total : ∀ a b, (le a b || le b a) = true) (distinct : (as.map key).Nodup) :
    (as.mergeSort le).Pairwise (fun a b => le a b = true ∧ key a ≠ key b) := by
  have sorted := List.pairwise_mergeSort trans total as
  have apart := ((List.mergeSort_perm as le).map key).nodup_iff.2 distinct
  rw [List.nodup_iff_pairwise_ne, List.pairwise_map] at apart
  exact sorted.and apart

end CodeOutline
