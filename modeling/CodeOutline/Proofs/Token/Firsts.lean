import CodeOutline.Token.Basic
import Mathlib.Data.List.Nodup

/-!
The items of a list that are the first with their key, told from the list alone. Adding items
one after the other, each unless its key is there already, comes to the same.
-/

set_option autoImplicit false

namespace CodeOutline

open EntityToken (insertNew)

variable {α κ : Type}

/-! ## Items and those before them -/

/-- Each item with those before it. -/
def withBefore (before : List α) : List α → List (List α × α)
  | [] => []
  | a :: as => (before, a) :: withBefore (before ++ [a]) as

theorem withBefore_append (before as more : List α) :
    withBefore before (as ++ more) =
      withBefore before as ++ withBefore (before ++ as) more := by
  induction as generalizing before with
  | nil => rw [List.nil_append, List.append_nil, withBefore, List.nil_append]
  | cons first as ih =>
    rw [List.cons_append, withBefore, ih, withBefore, List.cons_append, List.append_assoc,
      List.singleton_append]

theorem withBefore_concat (before as : List α) (a : α) :
    withBefore before (as ++ [a]) = withBefore before as ++ [(before ++ as, a)] :=
  withBefore_append before as [a]

theorem mem_withBefore {before as : List α} {x : List α × α} :
    x ∈ withBefore before as ↔
      ∃ front back, as = front ++ x.2 :: back ∧ x.1 = before ++ front := by
  induction as generalizing before with
  | nil => simp [withBefore]
  | cons a as ih =>
    rw [withBefore, List.mem_cons, ih]
    constructor
    · rintro (rfl | ⟨front, back, rfl, earlier⟩)
      · exact ⟨[], as, rfl, (List.append_nil before).symm⟩
      · exact ⟨a :: front, back, rfl, by rw [earlier, List.append_assoc, List.singleton_append]⟩
    · rintro ⟨front, back, parts, earlier⟩
      cases front with
      | nil =>
        obtain ⟨rfl, rfl⟩ := List.cons.inj parts
        rw [List.append_nil] at earlier
        exact .inl (Prod.ext earlier rfl)
      | cons first front =>
        obtain ⟨rfl, rfl⟩ := List.cons.inj parts
        refine .inr ⟨front, back, rfl, ?_⟩
        rw [earlier, List.append_assoc, List.singleton_append]

@[simp]
theorem map_snd_withBefore (before as : List α) : (withBefore before as).map (·.2) = as := by
  induction as generalizing before with
  | nil => rfl
  | cons a as ih => rw [withBefore, List.map_cons, ih]

@[simp]
theorem length_withBefore (before as : List α) : (withBefore before as).length = as.length := by
  rw [← List.length_map (·.2), map_snd_withBefore]

/-! ## First items -/

private theorem mem_map_filter_key {key : α → κ} {k : κ} {as : List α} (p : κ → Prop)
    [DecidablePred p] :
    k ∈ (as.filter (fun b => p (key b))).map key ↔ k ∈ as.map key ∧ p k := by
  have swapped : (as.filter (fun b => p (key b))).map key = (as.map key).filter (fun j => p j) :=
    (List.filter_map (p := fun j => decide (p j))).symm
  rw [swapped, List.mem_filter, decide_eq_true_eq]

section Insertion

variable [BEq κ] [LawfulBEq κ]

theorem insertNew_of_mem {key : α → κ} {items : List α} {item : α}
    (known : key item ∈ items.map key) : insertNew key items item = items := by
  obtain ⟨old, member, same⟩ := List.mem_map.1 known
  have found : (key old == key item) = true := beq_iff_eq.2 same
  exact if_pos (List.any_eq_true.2 ⟨old, member, found⟩)

theorem insertNew_of_not_mem {key : α → κ} {items : List α} {item : α}
    (fresh : key item ∉ items.map key) : insertNew key items item = items ++ [item] := by
  refine if_neg (fun found => ?_)
  obtain ⟨old, member, same⟩ := List.any_eq_true.1 found
  exact fresh (List.mem_map.2 ⟨old, member, beq_iff_eq.1 same⟩)

end Insertion

variable [DecidableEq κ]

/-- The items that are the first with their key, in order. -/
def firsts (key : α → κ) : List α → List α
  | [] => []
  | a :: as => a :: (firsts key as).filter (fun b => key b ≠ key a)

/-- A list as it is, and behind it the first item of each key that is new to it. -/
def withFirsts (key : α → κ) (own added : List α) : List α :=
  own ++ (firsts key added).filter (fun b => key b ∉ own.map key)

theorem mem_of_mem_firsts {key : α → κ} {a : α} {as : List α} (member : a ∈ firsts key as) :
    a ∈ as := by
  induction as with
  | nil => exact member
  | cons b as ih =>
    rcases List.mem_cons.1 member with rfl | later
    · exact List.mem_cons_self
    · have kept : a ∈ firsts key as := (List.mem_filter.1 later).1
      exact List.mem_cons_of_mem b (ih kept)

theorem mem_map_firsts {key : α → κ} {k : κ} {as : List α} :
    k ∈ (firsts key as).map key ↔ k ∈ as.map key := by
  induction as with
  | nil => rfl
  | cons a as ih =>
    rw [firsts, List.map_cons, List.mem_cons, mem_map_filter_key (· ≠ key a), ih, List.map_cons,
      List.mem_cons]
    by_cases first : k = key a
    · simp only [first, true_or]
    · simp only [first, false_or, ne_eq, not_false_eq_true, and_true]

theorem nodup_map_firsts (key : α → κ) (as : List α) : ((firsts key as).map key).Nodup := by
  induction as with
  | nil => exact List.nodup_nil
  | cons a as ih =>
    rw [firsts, List.map_cons, List.nodup_cons]
    constructor
    · intro again
      obtain ⟨b, member, same⟩ := List.mem_map.1 again
      have other : key b ≠ key a := by simpa using (List.mem_filter.1 member).2
      exact other same
    · exact ih.sublist (List.filter_sublist.map key)

theorem firsts_eq_self {key : α → κ} {as : List α} (distinct : (as.map key).Nodup) :
    firsts key as = as := by
  induction as with
  | nil => rfl
  | cons a as ih =>
    rw [List.map_cons, List.nodup_cons] at distinct
    have others : ∀ b ∈ as, decide (key b ≠ key a) = true := by
      intro b member
      have fresh : key b ≠ key a := fun same =>
        distinct.1 (List.mem_map.2 ⟨b, member, same⟩)
      exact decide_eq_true fresh
    rw [firsts, ih distinct.2, List.filter_eq_self.2 others]

theorem firsts_map {β : Type} (key : β → κ) (f : α → β) (as : List α) :
    firsts key (as.map f) = (firsts (fun a => key (f a)) as).map f := by
  induction as with
  | nil => rfl
  | cons a as ih =>
    rw [List.map_cons, firsts, ih, firsts, List.map_cons, List.filter_map]
    rfl

theorem find?_firsts (key : α → κ) (p : κ → Bool) (as : List α) :
    (firsts key as).find? (fun a => p (key a)) = as.find? (fun a => p (key a)) := by
  induction as with
  | nil => rfl
  | cons a as ih =>
    rw [firsts, List.find?_cons, List.find?_cons]
    cases here : p (key a) with
    | true => rfl
    | false =>
      have other (b : α) :
          decide (decide (key b ≠ key a) = true ∧ p (key b) = true) = p (key b) := by
        by_cases same : key b = key a
        · simp [same, here]
        · simp [same]
      rw [List.find?_filter]
      simp only [other, ih]

private theorem filter_fresh_cons (key : α → κ) (a : α) (as bs : List α) :
    (bs.filter (fun b => key b ∉ as.map key)).filter (fun b => key b ≠ key a) =
      bs.filter (fun b => key b ∉ (a :: as).map key) := by
  rw [List.filter_filter]
  refine List.filter_congr (fun b _ => ?_)
  simp only [List.map_cons, List.mem_cons, not_or, Bool.decide_and]

private theorem filter_fresh_singleton (key : α → κ) (as : List α) (a : α) :
    [a].filter (fun b => key b ∉ as.map key) = if key a ∈ as.map key then [] else [a] := by
  rw [List.filter_cons, List.filter_nil]
  by_cases known : key a ∈ as.map key
  · rw [if_pos known, if_neg (by simpa only [decide_eq_true_eq, not_not])]
  · rw [if_neg known, if_pos (decide_eq_true known)]

theorem firsts_append (key : α → κ) (as bs : List α) :
    firsts key (as ++ bs) = firsts key as ++ (firsts key bs).filter (fun b => key b ∉ as.map key) := by
  induction as with
  | nil => simp [firsts]
  | cons a as ih =>
    rw [List.cons_append, firsts, ih, firsts, List.filter_append, filter_fresh_cons,
      List.cons_append]

theorem firsts_concat (key : α → κ) (as : List α) (a : α) :
    firsts key (as ++ [a]) =
      if key a ∈ as.map key then firsts key as else firsts key as ++ [a] := by
  have alone : firsts key [a] = [a] := rfl
  rw [firsts_append, alone, filter_fresh_singleton]
  by_cases known : key a ∈ as.map key
  · rw [if_pos known, if_pos known, List.append_nil]
  · rw [if_neg known, if_neg known]

theorem withFirsts_nil (key : α → κ) (own : List α) : withFirsts key own [] = own := by
  simp [withFirsts, firsts]

theorem nil_withFirsts (key : α → κ) (added : List α) :
    withFirsts key [] added = firsts key added := by
  simp [withFirsts]

theorem withFirsts_eq_firsts {key : α → κ} {own : List α} (distinct : (own.map key).Nodup)
    (added : List α) : withFirsts key own added = firsts key (own ++ added) := by
  rw [firsts_append, firsts_eq_self distinct, withFirsts]

theorem nodup_map_withFirsts {key : α → κ} {own : List α} (distinct : (own.map key).Nodup)
    (added : List α) : ((withFirsts key own added).map key).Nodup := by
  rw [withFirsts_eq_firsts distinct]
  exact nodup_map_firsts key _

theorem mem_of_mem_withFirsts {key : α → κ} {a : α} {own added : List α}
    (member : a ∈ withFirsts key own added) : a ∈ own ∨ a ∈ added := by
  rcases List.mem_append.1 member with old | new
  · exact .inl old
  · exact .inr (mem_of_mem_firsts (List.mem_filter.1 new).1)

theorem mem_map_withFirsts {key : α → κ} {k : κ} {own added : List α} :
    k ∈ (withFirsts key own added).map key ↔ k ∈ own.map key ∨ k ∈ added.map key := by
  rw [withFirsts, List.map_append, List.mem_append, mem_map_filter_key (· ∉ own.map key),
    mem_map_firsts]
  by_cases known : k ∈ own.map key
  · simp only [known, true_or]
  · simp only [known, false_or, not_false_eq_true, and_true]

theorem withFirsts_concat (key : α → κ) (own added : List α) (a : α) :
    withFirsts key own (added ++ [a]) =
      if key a ∈ (withFirsts key own added).map key then withFirsts key own added
      else withFirsts key own added ++ [a] := by
  by_cases again : key a ∈ added.map key
  · rw [if_pos (mem_map_withFirsts.2 (.inr again)), withFirsts, withFirsts, firsts_concat,
      if_pos again]
  · have spread : withFirsts key own (added ++ [a]) =
        withFirsts key own added ++ (if key a ∈ own.map key then [] else [a]) := by
      rw [withFirsts, firsts_concat, if_neg again, List.filter_append, filter_fresh_singleton,
        withFirsts, List.append_assoc]
    by_cases known : key a ∈ own.map key
    · rw [spread, if_pos known, if_pos (mem_map_withFirsts.2 (.inl known)), List.append_nil]
    · have fresh : key a ∉ (withFirsts key own added).map key := by
        rw [mem_map_withFirsts, not_or]
        exact ⟨known, again⟩
      rw [spread, if_neg known, if_neg fresh]

/-! ## Additions one by one -/

variable [BEq κ] [LawfulBEq κ]

theorem insertNew_withFirsts (key : α → κ) (own added : List α) (item : α) :
    insertNew key (withFirsts key own added) item = withFirsts key own (added ++ [item]) := by
  rw [withFirsts_concat]
  by_cases known : key item ∈ (withFirsts key own added).map key
  · rw [if_pos known, insertNew_of_mem known]
  · rw [if_neg known, insertNew_of_not_mem known]

theorem foldl_insertNew (key : α → κ) (own before after : List α) :
    after.foldl (insertNew key) (withFirsts key own before) =
      withFirsts key own (before ++ after) := by
  induction after generalizing before with
  | nil => rw [List.append_nil, List.foldl_nil]
  | cons item after ih =>
    rw [List.foldl_cons, insertNew_withFirsts, ih, List.append_assoc, List.singleton_append]

theorem foldl_insertNew_nil (key : α → κ) (items : List α) :
    items.foldl (insertNew key) [] = firsts key items := by
  have run := foldl_insertNew key [] [] items
  rwa [withFirsts_nil, List.nil_append, nil_withFirsts] at run

end CodeOutline
