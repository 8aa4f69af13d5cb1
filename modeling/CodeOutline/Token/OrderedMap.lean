/-!
Values under texts as keys. The entries stand in the order in which their keys were first
used, and no key stands twice.
-/

set_option autoImplicit false

namespace CodeOutline

structure OrderedMap (α : Type) where
  entries : List (String × α) := []
  nodup : (entries.map (·.1)).Nodup := by simp
deriving Repr

namespace OrderedMap

variable {α β : Type}

def empty : OrderedMap α := {}

instance : Inhabited (OrderedMap α) := ⟨empty⟩

instance [BEq α] : BEq (OrderedMap α) := ⟨fun a b => a.entries == b.entries⟩

def isEmpty (m : OrderedMap α) : Bool := m.entries.isEmpty

def keys (m : OrderedMap α) : List String := m.entries.map (·.1)

def get? (m : OrderedMap α) (key : String) : Option α := m.entries.lookup key

def upsertEntry (key : String) (f : Option α → α) : List (String × α) → List (String × α)
  | [] => [(key, f none)]
  | (k, a) :: rest => if k == key then (k, f (some a)) :: rest else (k, a) :: upsertEntry key f rest

theorem keys_upsertEntry (key : String) (f : Option α → α) (entries : List (String × α)) :
    (upsertEntry key f entries).map (·.1) =
      if key ∈ entries.map (·.1) then entries.map (·.1) else entries.map (·.1) ++ [key] := by
  induction entries with
  | nil => simp [upsertEntry]
  | cons entry rest ih =>
    obtain ⟨k, a⟩ := entry
    by_cases same : k = key
    · simp [upsertEntry, same]
    · have other : key ≠ k := Ne.symm same
      simp only [upsertEntry, beq_iff_eq, same, if_false, List.map_cons, ih, List.mem_cons, other,
        false_or]
      split <;> simp

def upsert (m : OrderedMap α) (key : String) (f : Option α → α) : OrderedMap α where
  entries := upsertEntry key f m.entries
  nodup := by
    rw [keys_upsertEntry]
    split
    · exact m.nodup
    · next fresh =>
      refine List.nodup_append.2 ⟨m.nodup, by simp, fun a member b single => ?_⟩
      obtain rfl := List.mem_singleton.1 single
      exact fun equal => fresh (equal ▸ member)

theorem entries_upsert (m : OrderedMap α) (key : String) (f : Option α → α) :
    (m.upsert key f).entries = upsertEntry key f m.entries := rfl

/-- Every value changed by one function. -/
def map (f : α → β) (m : OrderedMap α) : OrderedMap β where
  entries := m.entries.map (fun (key, a) => (key, f a))
  nodup := by
    rw [List.map_map]
    exact m.nodup

def ofPairs (pairs : List (String × α)) : OrderedMap α :=
  pairs.foldl (fun m (key, a) => m.upsert key (fun _ => a)) empty

theorem ext {m n : OrderedMap α} (same : m.entries = n.entries) : m = n := by
  obtain ⟨entries, _⟩ := m
  obtain ⟨_, _⟩ := n
  obtain rfl : entries = _ := same
  rfl

theorem upsertEntry_of_fresh {key : String} {entries : List (String × α)} (f : Option α → α)
    (fresh : key ∉ entries.map (·.1)) : upsertEntry key f entries = entries ++ [(key, f none)] := by
  induction entries with
  | nil => rfl
  | cons entry rest ih =>
    obtain ⟨k, a⟩ := entry
    rw [List.map_cons, List.mem_cons, not_or] at fresh
    have other : ¬(k == key) = true := by simpa using Ne.symm fresh.1
    rw [upsertEntry, if_neg other, ih fresh.2, List.cons_append]

private theorem entries_foldl_upsert_of_fresh (m : OrderedMap α) {pairs : List (String × α)}
    (fresh : ((m.entries ++ pairs).map (·.1)).Nodup) :
    (pairs.foldl (fun m (key, a) => m.upsert key (fun _ => a)) m).entries = m.entries ++ pairs := by
  induction pairs generalizing m with
  | nil => rw [List.append_nil, List.foldl_nil]
  | cons pair pairs ih =>
    obtain ⟨key, a⟩ := pair
    have absent : key ∉ m.entries.map (·.1) := by
      intro member
      rw [List.map_append, List.nodup_append] at fresh
      exact fresh.2.2 key member key (by simp) rfl
    have grown : (m.upsert key (fun _ => a)).entries = m.entries ++ [(key, a)] :=
      upsertEntry_of_fresh _ absent
    rw [List.foldl_cons, ih, grown, List.append_assoc, List.singleton_append]
    rw [grown, List.append_assoc, List.singleton_append]
    exact fresh

theorem ofPairs_entries (m : OrderedMap α) : ofPairs m.entries = m := by
  refine ext ?_
  have run := entries_foldl_upsert_of_fresh (empty : OrderedMap α) m.nodup
  exact run

theorem get?_eq_some_iff (m : OrderedMap α) (key : String) (a : α) :
    m.get? key = some a ↔ (key, a) ∈ m.entries := by
  obtain ⟨entries, nodup⟩ := m
  simp only [get?]
  induction entries with
  | nil => simp
  | cons entry rest ih =>
    obtain ⟨k, b⟩ := entry
    rw [List.map_cons, List.nodup_cons] at nodup
    by_cases same : key = k
    · subst same
      have absent : (key, a) ∉ rest := fun member =>
        nodup.1 (List.mem_map.2 ⟨(key, a), member, rfl⟩)
      simp [absent, eq_comm]
    · have other : (key == k) = false := by simpa using same
      simp [List.lookup_cons, other, same, ih nodup.2]

end OrderedMap

end CodeOutline
