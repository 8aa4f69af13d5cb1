import Mathlib.Data.List.Basic

/-!
Round and curly brackets of a text, read from the left with the brackets that are still open. A
text is nested when each closing bracket is the one that is awaited and none is awaited at the end.
-/

set_option autoImplicit false

namespace CodeOutline.Text

def closing? : Char → Option Char
  | '(' => some ')'
  | '\x7b' => some '\x7d'
  | _ => none

/-- The closing brackets that are awaited behind a character, innermost first. A closing bracket
has to be the one awaited next. -/
def await (pending : List Char) (c : Char) : Option (List Char) :=
  match closing? c with
  | some mark => some (mark :: pending)
  | none =>
    if c = ')' ∨ c = '\x7d' then
      match pending with
      | mark :: outer => if mark = c then some outer else none
      | [] => none
    else some pending

/-- The closing brackets that are awaited behind a text. -/
def awaited (pending : List Char) (s : String) : Option (List Char) := s.toList.foldlM await pending

/-- Brackets close in the order in which they have to, and all of them close. -/
def IsNested (s : String) : Prop := awaited [] s = some []

instance (s : String) : Decidable (IsNested s) :=
  inferInstanceAs (Decidable (awaited [] s = some []))

theorem awaited_append (pending : List Char) (a b : String) :
    awaited pending (a ++ b) = (awaited pending a).bind (awaited · b) := by
  rw [awaited, String.toList_append]
  exact List.foldlM_append

theorem await_append {pending inner : List Char} {c : Char} (stands : await pending c = some inner)
    (outer : List Char) : await (pending ++ outer) c = some (inner ++ outer) := by
  unfold await at stands ⊢
  split at stands
  · obtain rfl := Option.some.inj stands
    rfl
  next other =>
  split at stands
  · next closes =>
    rw [if_pos closes]
    cases pending with
    | nil => cases stands
    | cons mark pending =>
      dsimp only at stands
      split at stands
      · next same =>
        obtain rfl := Option.some.inj stands
        exact if_pos same
      · cases stands
  · next plain =>
    obtain rfl := Option.some.inj stands
    exact if_neg plain

theorem awaited_below {pending inner : List Char} {s : String}
    (read : awaited pending s = some inner) (outer : List Char) :
    awaited (pending ++ outer) s = some (inner ++ outer) := by
  unfold awaited at read ⊢
  generalize s.toList = cs at read ⊢
  induction cs generalizing pending with
  | nil =>
    obtain rfl := Option.some.inj read
    rfl
  | cons c cs ih =>
    rw [List.foldlM_cons] at read ⊢
    cases first : await pending c with
    | none =>
      rw [first] at read
      cases read
    | some behind =>
      rw [first] at read
      rw [await_append first outer]
      exact ih read

namespace IsNested

variable {a b s : String}

theorem awaited_eq (nested : IsNested s) (pending : List Char) : awaited pending s = some pending :=
  awaited_below nested pending

theorem append (first : IsNested a) (second : IsNested b) : IsNested (a ++ b) := by
  rw [IsNested, awaited_append, first, Option.bind_some, second]

theorem join {parts : List String} (each : ∀ s ∈ parts, IsNested s) :
    IsNested (String.join parts) := by
  induction parts with
  | nil => exact rfl
  | cons s parts ih =>
    obtain ⟨first, later⟩ := List.forall_mem_cons.1 each
    rw [String.join_cons]
    exact first.append (ih later)

theorem intercalate {parts : List String} (gap : IsNested s) (each : ∀ s ∈ parts, IsNested s) :
    IsNested (s.intercalate parts) := by
  induction parts with
  | nil => exact rfl
  | cons first parts ih =>
    obtain ⟨here, later⟩ := List.forall_mem_cons.1 each
    cases parts with
    | nil => exact here
    | cons second parts =>
      rw [String.intercalate_cons_cons]
      exact (here.append gap).append (ih later)

theorem enclose {mark : Char} (opens : awaited [] a = some [mark]) (inner : IsNested s)
    (closes : awaited [mark] b = some []) : IsNested (a ++ s ++ b) := by
  rw [IsNested, awaited_append, awaited_append, opens, Option.bind_some, inner.awaited_eq,
    Option.bind_some, closes]

theorem parens (front : IsNested a) (inner : IsNested s) : IsNested (a ++ "(" ++ s ++ ")") := by
  have opens : awaited [] (a ++ "(") = some [')'] := by
    rw [awaited_append, front]
    rfl
  exact enclose opens inner rfl

end IsNested

/-! Texts without brackets -/

/-- A bracket of any kind. -/
def isBracket (c : Char) : Bool := ['(', ')', '\x7b', '\x7d', '[', ']'].contains c

def IsBare (s : String) : Prop := ∀ c ∈ s.toList, isBracket c = false

instance (s : String) : Decidable (IsBare s) := List.decidableBAll _ s.toList

theorem await_of_not_isBracket (pending : List Char) {c : Char} (plain : isBracket c = false) :
    await pending c = some pending := by
  have noMark : closing? c = none := by
    unfold closing?
    split
    · cases plain
    · cases plain
    · rfl
  have other : ¬(c = ')' ∨ c = '\x7d') := by
    rintro (rfl | rfl) <;> cases plain
  unfold await
  rw [noMark]
  exact if_neg other

theorem IsBare.isNested {s : String} (bare : IsBare s) : IsNested s := by
  unfold IsBare at bare
  unfold IsNested awaited
  generalize s.toList = cs at bare ⊢
  induction cs with
  | nil => rfl
  | cons c cs ih =>
    obtain ⟨plain, later⟩ := List.forall_mem_cons.1 bare
    rw [List.foldlM_cons, await_of_not_isBracket [] plain]
    exact ih later

theorem IsBare.of_subset {s t : String} (bare : IsBare t) (inside : s.toList ⊆ t.toList) :
    IsBare s := fun c there => bare c (inside there)

example : IsNested "f(int a) \x7b return (a) \x7d" := by decide

end CodeOutline.Text
