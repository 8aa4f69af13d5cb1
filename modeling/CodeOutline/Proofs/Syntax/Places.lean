import CodeOutline.Proofs.Syntax.Nodes
import CodeOutline.Proofs.Syntax.Reading
import CodeOutline.Proofs.Text.Occurrence

/-!
The places of nodes. A reader goes through its text from the beginning on, so every node that it
makes starts and stops between characters of the text, as long as the moves of its rules do not
leave the text.
-/

set_option autoImplicit false

namespace CodeOutline.Syntax

variable {σ : Type} {text : List Char}

def Place.IsOf (text : List Char) (p : Place) : Prop := ∃ front, front <+: text ∧ p = .behind front

def Cursor.IsOf (text : List Char) (c : Cursor) : Prop :=
  ∃ front, text = front ++ c.rest ∧ c.place = .behind front

inductive Node.IsOf (text : List Char) : Node → Prop
  | mk {n : Node} : n.start.IsOf text → n.stop.IsOf text → (∀ c ∈ n.children, Node.IsOf text c) →
      Node.IsOf text n

theorem Place.line_le_foldl_next (p : Place) (cs : List Char) :
    p.line ≤ (cs.foldl Place.next p).line := by
  induction cs generalizing p with
  | nil => exact Nat.le_refl _
  | cons c cs ih =>
    refine Nat.le_trans ?_ (ih (p.next c))
    rw [Place.next]
    split <;> simp

theorem Place.IsOf.line_le {p q : Place} (here : p.IsOf text) (there : q.IsOf text)
    (le : p.offset ≤ q.offset) : p.line ≤ q.line := by
  obtain ⟨front, begins, rfl⟩ := here
  obtain ⟨longer, begins', rfl⟩ := there
  rw [Place.behind_offset, Place.behind_offset] at le
  obtain ⟨more, rfl⟩ := List.prefix_of_prefix_length_le begins begins' le
  rw [Place.behind_append]
  exact Place.line_le_foldl_next _ more

namespace Cursor.IsOf

variable {c : Cursor}

theorem start (text : List Char) : (Cursor.start text).IsOf text := ⟨[], rfl, rfl⟩

theorem place (here : c.IsOf text) : c.place.IsOf text := by
  obtain ⟨front, rfl, place⟩ := here
  exact ⟨front, List.prefix_append _ _, place⟩

theorem skip (here : c.IsOf text) (n : Nat) : (c.skip n).IsOf text := by
  induction n generalizing c with
  | zero => exact here
  | succ n ih =>
    rw [Cursor.skip]
    split
    · exact here
    · next d ds rest =>
      obtain ⟨front, whole, place⟩ := here
      refine ih ⟨front ++ [d], ?_, ?_⟩
      · rw [whole, rest, List.append_assoc, List.singleton_append]
      · show c.place.next d = .behind (front ++ [d])
        rw [place, Place.behind_append]
        rfl

end Cursor.IsOf

namespace Node.IsOf

variable {n c : Node} (here : n.IsOf text)

include here

theorem start : n.start.IsOf text := by
  obtain ⟨start, -, -⟩ := here
  exact start

theorem stop : n.stop.IsOf text := by
  obtain ⟨-, stop, -⟩ := here
  exact stop

theorem child (member : c ∈ n.children) : c.IsOf text := by
  obtain ⟨-, -, below⟩ := here
  exact below c member

theorem named (member : c ∈ n.named) : c.IsOf text := here.child (mem_children_of_mem_named member)

theorem child? {field : String} (found : n.child? field = some c) : c.IsOf text :=
  here.child (mem_children_of_child? found)

theorem first? {kind : String} (found : n.first? kind = some c) : c.IsOf text :=
  here.named (List.mem_of_find?_eq_some found)

omit here in
theorem setField (here : n.IsOf text) (role : String) :
    ({ n with field := some role } : Node).IsOf text := by
  obtain ⟨start, stop, below⟩ := here
  exact ⟨start, stop, below⟩

end Node.IsOf

/-! ## Moves -/

def StaysIn (text : List Char) (f : Cursor → Cursor → Option Cursor) : Prop :=
  ∀ before after c, before.IsOf text → f before after = some c → c.IsOf text

def GoesOn (f : Cursor → Cursor → Option Cursor) : Prop :=
  ∀ before after c, f before after = some c → before.place.offset ≤ c.place.offset

def Rule.moves : Rule σ → List (Cursor → Cursor → Option Cursor)
  | .seq a b | .alt a b | .chain a b => a.moves ++ b.moves
  | .many a | .node _ a | .field _ a | .grow a | .wrap _ _ a | .inside a => a.moves
  | .move f => [f]
  | _ => []

namespace Grammar

variable {g : Grammar σ} {fuel : Nat} {a : Rule σ} {c stop : Cursor} {left xs : List Node}

/-! ## Parts of the reader -/

theorem isOf_lead (here : c.IsOf text) :
    (g.lead c).2.IsOf text ∧ ∀ x ∈ (g.lead c).1, x.IsOf text := by
  refine lead_rec (motive := fun c xs stop =>
    c.IsOf text → stop.IsOf text ∧ ∀ x ∈ xs, x.IsOf text) ?stays ?piece c here
  case stays => exact fun _ here => ⟨here, List.forall_mem_nil _⟩
  case piece =>
    intro c stop n kind xs _ later here
    have behind := here.skip n
    obtain ⟨last, more⟩ := later behind
    cases kind with
    | none => exact ⟨last, more⟩
    | some kind => exact ⟨last, List.forall_mem_cons.2
        ⟨⟨here.place, behind.place, List.forall_mem_nil _⟩, more⟩⟩

theorem isOf_take {extras : List Node} {kind : String} {isNamed : Bool} {length : Nat}
    (here : c.IsOf text) (before : ∀ x ∈ extras, x.IsOf text) :
    (take extras c kind isNamed length).2.IsOf text ∧
      ∀ x ∈ (take extras c kind isNamed length).1, x.IsOf text := by
  have behind := here.skip length
  refine ⟨behind, List.forall_mem_append.2 ⟨before, List.forall_mem_singleton.2 ?_⟩⟩
  exact ⟨here.place, behind.place, List.forall_mem_nil _⟩

theorem isOf_assignField {role : String} (inner : ∀ x ∈ xs, x.IsOf text) :
    ∀ x ∈ assignField role xs, x.IsOf text := by
  intro x member
  rcases mem_assignField member with ⟨there, -⟩ | ⟨y, there, -, rfl⟩
  · exact inner x there
  · exact (inner y there).setField role

theorem isOf_enclose {kind : String} (here : c.IsOf text) (behind : stop.IsOf text)
    (inner : ∀ x ∈ xs, x.IsOf text) : ∀ x ∈ c.enclose stop kind xs, x.IsOf text := by
  have extra : ∀ y ∈ (splitExtras xs).1, y.IsOf text := fun y there =>
    inner y ((mem_splitExtras xs).1 (.inl there))
  have proper : ∀ y ∈ (splitExtras xs).2, y.IsOf text := fun y there =>
    inner y ((mem_splitExtras xs).1 (.inr there))
  unfold Cursor.enclose
  dsimp only
  split
  · next first rest last core ends =>
    have begins : first ∈ (splitExtras xs).2 := by
      rw [core]
      exact List.mem_cons_self
    have closes := proper last (List.mem_of_getLast? ends)
    refine List.forall_mem_append.2 ⟨extra, List.forall_mem_singleton.2 ?_⟩
    exact ⟨(proper first begins).start, closes.stop, proper⟩
  · refine List.forall_mem_append.2 ⟨extra, List.forall_mem_singleton.2 ?_⟩
    exact ⟨here.place, behind.place, List.forall_mem_nil _⟩

/-! ## The reader -/

theorem isOf_of_run (rules : ∀ name, ∀ f ∈ (g.rule name).moves, StaysIn text f)
    (run : g.run fuel left a c = some (xs, stop)) (moves : ∀ f ∈ a.moves, StaysIn text f)
    (here : c.IsOf text) (before : ∀ x ∈ left, x.IsOf text) :
    stop.IsOf text ∧ ∀ x ∈ xs, x.IsOf text := by
  have nothing : ∀ x ∈ ([] : List Node), x.IsOf text := List.forall_mem_nil _
  have derived := derives_of_run run
  clear run
  induction derived with
  | done | test | ahead | notAhead | manyNone => exact ⟨here, nothing⟩
  | move moved => exact ⟨moves _ (List.mem_singleton_self _) _ _ _ here moved, nothing⟩
  | call _ ih => exact ih (rules _) here before
  | seq _ _ first second =>
    obtain ⟨one, other⟩ := List.forall_mem_append.1 moves
    obtain ⟨middle, ofFirst⟩ := first one here nothing
    obtain ⟨behind, ofSecond⟩ := second other middle nothing
    exact ⟨behind, List.forall_mem_append.2 ⟨ofFirst, ofSecond⟩⟩
  | altLeft _ ih => exact ih (List.forall_mem_append.1 moves).1 here before
  | altRight _ ih => exact ih (List.forall_mem_append.1 moves).2 here before
  | manyOne _ ih => exact ih moves here nothing
  | manyMore _ _ first others =>
    obtain ⟨middle, ofFirst⟩ := first moves here nothing
    obtain ⟨behind, ofOthers⟩ := others moves middle nothing
    exact ⟨behind, List.forall_mem_append.2 ⟨ofFirst, ofOthers⟩⟩
  | sign | word | longest | leaf =>
    obtain ⟨led, extras⟩ := isOf_lead (g := g) here
    exact isOf_take led extras
  | near | placed => exact isOf_take here nothing
  | node _ _ ih =>
    obtain ⟨behind, inner⟩ := ih moves here nothing
    exact ⟨behind, isOf_enclose here behind inner⟩
  | field _ ih =>
    obtain ⟨behind, inner⟩ := ih moves here before
    exact ⟨behind, isOf_assignField inner⟩
  | chain _ _ base growth =>
    obtain ⟨one, other⟩ := List.forall_mem_append.1 moves
    obtain ⟨middle, ofBase⟩ := base one here nothing
    exact growth other middle ofBase
  | growNone => exact ⟨here, before⟩
  | growMore _ _ one others =>
    obtain ⟨middle, ofOne⟩ := one moves here before
    exact others moves middle ofOne
  | wrap _ ih =>
    obtain ⟨behind, inner⟩ := ih moves here nothing
    exact ⟨behind, isOf_enclose here behind
      (List.forall_mem_append.2 ⟨isOf_assignField before, inner⟩)⟩
  | inside _ ih =>
    -- How many brackets are open does not tell where the cursor stands.
    obtain ⟨behind, inner⟩ := ih moves here nothing
    exact ⟨behind, inner⟩

theorem isOf_of_read? {kind : String} {root : Node}
    (rules : ∀ name, ∀ f ∈ (g.rule name).moves, StaysIn text f)
    (moves : ∀ f ∈ a.moves, StaysIn text f) (read : g.read? kind a text = some root) :
    root.IsOf text := by
  simp only [read?] at read
  split at read
  · cases read
  · next nodes stop found =>
    obtain ⟨behind, inner⟩ :=
      isOf_of_run rules found moves (.start text) (List.forall_mem_nil _)
    obtain ⟨last, extras⟩ := isOf_lead (g := g) behind
    split at read
    · cases read
      exact ⟨(Cursor.IsOf.start text).place, last.place, List.forall_mem_append.2 ⟨inner, extras⟩⟩
    · cases read

theorem isOf_of_still {kind : String} {root : Node} (rules : ∀ name, (g.rule name).moves = [])
    (moves : a.moves = []) (read : g.read? kind a text = some root) : root.IsOf text := by
  refine isOf_of_read? (fun name => ?_) ?_ read
  · rw [rules]
    exact List.forall_mem_nil _
  · rw [moves]
    exact List.forall_mem_nil _

end Grammar

/-! ## Nodes in their parents -/

/-- The node starts before it stops, and so do all nodes in it, each inside of its parent. -/
inductive Node.IsNested : Node → Prop
  | mk {n : Node} : n.start.offset ≤ n.stop.offset →
      (∀ c ∈ n.children, n.start.offset ≤ c.start.offset ∧ c.stop.offset ≤ n.stop.offset) →
      (∀ c ∈ n.children, Node.IsNested c) → Node.IsNested n

namespace Node.IsNested

variable {n c : Node} (nested : n.IsNested)

include nested

theorem start_le_stop : n.start.offset ≤ n.stop.offset := by
  obtain ⟨le, -, -⟩ := nested
  exact le

theorem start_le (member : c ∈ n.children) : n.start.offset ≤ c.start.offset := by
  obtain ⟨-, inside, -⟩ := nested
  exact (inside c member).1

theorem stop_le (member : c ∈ n.children) : c.stop.offset ≤ n.stop.offset := by
  obtain ⟨-, inside, -⟩ := nested
  exact (inside c member).2

theorem child (member : c ∈ n.children) : c.IsNested := by
  obtain ⟨-, -, below⟩ := nested
  exact below c member

theorem setField (role : String) : ({ n with field := some role } : Node).IsNested := by
  obtain ⟨le, inside, below⟩ := nested
  exact ⟨le, inside, below⟩

end Node.IsNested

structure InOrder (low : Nat) (nodes : List Node) (high : Nat) : Prop where
  le : low ≤ high
  each : ∀ x ∈ nodes, x.IsNested ∧ low ≤ x.start.offset ∧ x.stop.offset ≤ high
  apart : nodes.Pairwise (fun x y => x.stop.offset ≤ y.start.offset)

def EndsProper (nodes : List Node) : Prop := ∀ x ∈ nodes.getLast?, x.isExtra = false

section

variable {low middle high : Nat} {xs ys : List Node} {x : Node}

theorem endsProper_nil : EndsProper [] := by rintro _ ⟨⟩

theorem endsProper_concat (proper : x.isExtra = false) : EndsProper (xs ++ [x]) := by
  intro y last
  rw [List.getLast?_concat] at last
  obtain rfl := Option.some.inj last
  exact proper

theorem EndsProper.append (first : EndsProper xs) (second : EndsProper ys) :
    EndsProper (xs ++ ys) := by
  cases ys.eq_nil_or_concat with
  | inl none =>
    rwa [none, List.append_nil]
  | inr ends =>
    obtain ⟨ys, y, rfl⟩ := ends
    rw [List.concat_eq_append] at second ⊢
    rw [← List.append_assoc]
    refine endsProper_concat (second y ?_)
    rw [List.getLast?_concat]
    rfl

theorem EndsProper.assignField (proper : EndsProper xs) (role : String) :
    EndsProper (assignField role xs) := by
  intro y last
  rw [Syntax.assignField, List.getLast?_map] at last
  obtain ⟨x, ends, made⟩ := Option.map_eq_some_iff.1 last
  have plain := proper x ends
  split at made <;> subst made <;> exact plain

namespace InOrder

theorem nil (le : low ≤ high) : InOrder low [] high := ⟨le, List.forall_mem_nil _, .nil⟩

theorem singleton (nested : x.IsNested) (lower : low ≤ x.start.offset)
    (higher : x.stop.offset ≤ high) : InOrder low [x] high where
  le := Nat.le_trans lower (Nat.le_trans nested.start_le_stop higher)
  each := List.forall_mem_singleton.2 ⟨nested, lower, higher⟩
  apart := List.pairwise_singleton _ _

theorem append (first : InOrder low xs middle) (second : InOrder middle ys high) :
    InOrder low (xs ++ ys) high where
  le := Nat.le_trans first.le second.le
  each := by
    refine List.forall_mem_append.2 ⟨fun x member => ?_, fun y member => ?_⟩
    · obtain ⟨nested, lower, higher⟩ := first.each x member
      exact ⟨nested, lower, Nat.le_trans higher second.le⟩
    · obtain ⟨nested, lower, higher⟩ := second.each y member
      exact ⟨nested, Nat.le_trans first.le lower, higher⟩
  apart := by
    refine List.pairwise_append.2 ⟨first.apart, second.apart, fun x member y member' => ?_⟩
    exact Nat.le_trans (first.each x member).2.2 (second.each y member').2.1

theorem assignField (order : InOrder low xs high) (role : String) :
    InOrder low (assignField role xs) high where
  le := order.le
  each := by
    intro x member
    rcases Grammar.mem_assignField member with ⟨there, -⟩ | ⟨y, there, -, rfl⟩
    · exact order.each x there
    · obtain ⟨nested, bounds⟩ := order.each y there
      exact ⟨nested.setField role, bounds⟩
  apart := by
    rw [Syntax.assignField, List.pairwise_map]
    refine order.apart.imp fun {x y} apart => ?_
    split <;> split <;> exact apart

theorem nested_around (order : InOrder low xs high) {first last : Node} {rest : List Node}
    (parts : xs = first :: rest) (ends : xs.getLast? = some last) (kind : String)
    (tail : List Char) :
    ({ kind, start := first.start, stop := last.stop, tail, children := xs } : Node).IsNested := by
  have begins : ∀ x ∈ xs, first.start.offset ≤ x.start.offset := by
    intro x member
    rw [parts] at member
    rcases List.mem_cons.1 member with rfl | later
    · exact Nat.le_refl _
    · have apart := order.apart
      rw [parts] at apart
      have nested := (order.each first (by simp [parts])).1
      exact Nat.le_trans nested.start_le_stop ((List.pairwise_cons.1 apart).1 x later)
  have stops : ∀ x ∈ xs, x.stop.offset ≤ last.stop.offset := by
    obtain ⟨front, rfl⟩ := List.getLast?_eq_some_iff.1 ends
    intro x member
    rcases List.mem_append.1 member with earlier | same
    · have apart := (List.pairwise_append.1 order.apart).2.2 x earlier last (by simp)
      exact Nat.le_trans apart (order.each last (by simp)).1.start_le_stop
    · obtain rfl := List.mem_singleton.1 same
      exact Nat.le_refl _
  have there : first ∈ xs := by simp [parts]
  refine ⟨?_, fun x member => ⟨begins x member, stops x member⟩, fun x member => ?_⟩
  · exact Nat.le_trans (order.each first there).1.start_le_stop (stops first there)
  · exact (order.each x member).1

theorem enclose {c stop : Cursor} {kind : String} (order : InOrder low xs stop.place.offset)
    (proper : EndsProper xs) (lower : low ≤ c.place.offset)
    (less : c.place.offset ≤ stop.place.offset) :
    InOrder low (c.enclose stop kind xs) stop.place.offset ∧
      EndsProper (c.enclose stop kind xs) := by
  have split : (splitExtras xs).1 ++ (splitExtras xs).2 = xs := List.takeWhile_append_dropWhile
  unfold Cursor.enclose
  dsimp only
  cases core : (splitExtras xs).2 with
  | nil =>
    -- The last of the nodes is no comment, so there are none.
    obtain rfl : xs = [] := by
      cases xs.eq_nil_or_concat with
      | inl nothing => exact nothing
      | inr ends =>
        obtain ⟨front, x, rfl⟩ := ends
        rw [core, List.append_nil] at split
        have among : x ∈ (splitExtras (front.concat x)).1 := by
          rw [split]
          simp
        have comment : x.isExtra = true := List.all_eq_true.1 List.all_takeWhile x among
        rw [proper x (by simp)] at comment
        cases comment
    exact ⟨.singleton ⟨less, List.forall_mem_nil _, List.forall_mem_nil _⟩ lower (Nat.le_refl _),
      endsProper_concat rfl⟩
  | cons first rest =>
    rw [core] at split
    have parts := order
    rw [← split] at parts
    have ofCore : InOrder low (first :: rest) stop.place.offset := by
      refine ⟨order.le, fun x member => parts.each x (List.mem_append_right _ member), ?_⟩
      exact (List.pairwise_append.1 parts.apart).2.1
    have ends := List.getLast?_eq_some_getLast (List.cons_ne_nil first rest)
    generalize (first :: rest).getLast (List.cons_ne_nil first rest) = last at ends
    rw [ends]
    refine ⟨⟨order.le, ?_, ?_⟩, endsProper_concat rfl⟩
    · refine List.forall_mem_append.2 ⟨fun x member => ?_, List.forall_mem_singleton.2 ⟨?_, ?_⟩⟩
      · exact parts.each x (List.mem_append_left _ member)
      · exact ofCore.nested_around rfl ends kind first.tail
      · exact ⟨(ofCore.each first List.mem_cons_self).2.1,
          (ofCore.each last (List.mem_of_getLast? ends)).2.2⟩
    · obtain ⟨ofExtras, -, across⟩ := List.pairwise_append.1 parts.apart
      refine List.pairwise_append.2 ⟨ofExtras, List.pairwise_singleton _ _, ?_⟩
      intro x member y same
      rw [List.mem_singleton.1 same]
      exact across x member first List.mem_cons_self

end InOrder

end

namespace Grammar

variable {g : Grammar σ} {fuel : Nat} {a : Rule σ} {c stop : Cursor} {left xs : List Node}

theorem offset_le_skip (c : Cursor) (n : Nat) : c.place.offset ≤ (c.skip n).place.offset := by
  rw [offset_skip]
  exact Nat.le_add_right _ _

theorem inOrder_lead (c : Cursor) :
    InOrder c.place.offset (g.lead c).1 (g.lead c).2.place.offset := by
  refine lead_rec (motive := fun c xs stop => InOrder c.place.offset xs stop.place.offset)
    (fun _ => .nil (Nat.le_refl _)) (fun {c _ n kind _} _ later => ?_) c
  have less := offset_le_skip c n
  cases kind with
  | none => exact (InOrder.nil less).append later
  | some kind =>
    refine (InOrder.singleton ?_ ?_ ?_).append later
    · exact ⟨less, List.forall_mem_nil _, List.forall_mem_nil _⟩
    · exact Nat.le_refl _
    · exact Nat.le_refl _

theorem inOrder_take {low : Nat} {extras : List Node} {kind : String} {isNamed : Bool}
    {length : Nat} (before : InOrder low extras c.place.offset) :
    InOrder low (take extras c kind isNamed length).1
        (take extras c kind isNamed length).2.place.offset ∧
      EndsProper (take extras c kind isNamed length).1 := by
  have less := offset_le_skip c length
  have token : InOrder c.place.offset
      [{ kind, isNamed, start := c.place, stop := (c.skip length).place, tail := c.rest }]
      (c.skip length).place.offset :=
    .singleton ⟨less, List.forall_mem_nil _, List.forall_mem_nil _⟩ (Nat.le_refl _) (Nat.le_refl _)
  exact ⟨before.append token, endsProper_concat rfl⟩

/-- A rule whose moves do not go back makes nodes in the order of the text, with each child inside of
its parent. -/
theorem inOrder_of_run {low : Nat} (rules : ∀ name, ∀ f ∈ (g.rule name).moves, GoesOn f)
    (run : g.run fuel left a c = some (xs, stop)) (moves : ∀ f ∈ a.moves, GoesOn f)
    (before : InOrder low left c.place.offset) (proper : EndsProper left) :
    InOrder low xs stop.place.offset ∧ EndsProper xs := by
  have derived := derives_of_run run
  clear run
  induction derived generalizing low with
  | done | test | ahead | notAhead | manyNone => exact ⟨.nil before.le, endsProper_nil⟩
  | move moved =>
    have later := moves _ (List.mem_singleton_self _) _ _ _ moved
    exact ⟨.nil (Nat.le_trans before.le later), endsProper_nil⟩
  | call _ ih => exact ih (rules _) before proper
  | seq _ _ first second =>
    obtain ⟨one, other⟩ := List.forall_mem_append.1 moves
    obtain ⟨ofFirst, proper⟩ := first one (.nil before.le) endsProper_nil
    obtain ⟨ofSecond, proper'⟩ := second other (.nil (Nat.le_refl _)) endsProper_nil
    exact ⟨ofFirst.append ofSecond, proper.append proper'⟩
  | altLeft _ ih => exact ih (List.forall_mem_append.1 moves).1 before proper
  | altRight _ ih => exact ih (List.forall_mem_append.1 moves).2 before proper
  | manyOne _ ih => exact ih moves (.nil before.le) endsProper_nil
  | manyMore _ _ first others =>
    obtain ⟨ofFirst, proper⟩ := first moves (.nil before.le) endsProper_nil
    obtain ⟨ofOthers, proper'⟩ := others moves (.nil (Nat.le_refl _)) endsProper_nil
    exact ⟨ofFirst.append ofOthers, proper.append proper'⟩
  | sign | word | longest | leaf =>
    exact inOrder_take ((InOrder.nil before.le).append (inOrder_lead _))
  | near | placed => exact inOrder_take (.nil before.le)
  | node _ _ ih =>
    obtain ⟨inner, proper⟩ := ih moves (.nil (Nat.le_refl _)) endsProper_nil
    exact ((InOrder.nil before.le).append inner).enclose proper before.le inner.le
  | field _ ih =>
    obtain ⟨inner, proper⟩ := ih moves before proper
    exact ⟨inner.assignField _, proper.assignField _⟩
  | chain _ _ base growth =>
    obtain ⟨one, other⟩ := List.forall_mem_append.1 moves
    obtain ⟨ofBase, proper⟩ := base one (.nil before.le) endsProper_nil
    exact growth other ofBase proper
  | growNone => exact ⟨before, proper⟩
  | growMore _ _ one others =>
    obtain ⟨ofOne, proper⟩ := one moves before proper
    exact others moves ofOne proper
  | wrap _ ih =>
    obtain ⟨inner, proper'⟩ := ih moves (.nil (Nat.le_refl _)) endsProper_nil
    exact ((before.assignField _).append inner).enclose ((proper.assignField _).append proper')
      before.le inner.le
  | inside _ ih => exact ih moves (.nil before.le) endsProper_nil

theorem inOrder_of_read? {kind : String} {root : Node}
    (rules : ∀ name, ∀ f ∈ (g.rule name).moves, GoesOn f) (moves : ∀ f ∈ a.moves, GoesOn f)
    (read : g.read? kind a text = some root) :
    InOrder root.start.offset root.children root.stop.offset := by
  simp only [read?] at read
  split at read
  · cases read
  · next nodes stop found =>
    obtain ⟨inner, -⟩ := inOrder_of_run rules found moves (.nil (Nat.le_refl _)) endsProper_nil
    have all := inner.append (inOrder_lead (g := g) stop)
    split at read
    · cases read
      exact all
    · cases read

theorem isNested_of_still {kind : String} {root : Node} (rules : ∀ name, (g.rule name).moves = [])
    (still : a.moves = []) (read : g.read? kind a text = some root) : root.IsNested := by
  have all : InOrder root.start.offset root.children root.stop.offset := by
    refine inOrder_of_read? (fun name => ?_) ?_ read
    · rw [rules]
      exact List.forall_mem_nil _
    · rw [still]
      exact List.forall_mem_nil _
  exact ⟨all.le, fun x member => (all.each x member).2, fun x member => (all.each x member).1⟩

end Grammar

end CodeOutline.Syntax

/-! ## Spans

A token that stands where a node does goes from one point of the text to another. -/

namespace CodeOutline.Syntax

open Text (IsSpan)

variable {text : String} {n : Node}

theorem Place.IsOf.isWithin {p : Place} (here : p.IsOf text.toList) :
    Text.IsWithin text p.point := by
  obtain ⟨front, ⟨rest, whole⟩, rfl⟩ := here
  exact Text.isWithin_behind whole.symm

namespace Node.IsOf

theorem isSpan (here : n.IsOf text.toList) : ∀ s ∈ some n.span, IsSpan text s := by
  rintro s ⟨⟩
  exact ⟨here.start.isWithin, here.stop.isWithin⟩

theorem isSpan_map {found : Option Node} (here : ∀ c ∈ found, c.IsOf text.toList) :
    ∀ s ∈ found.map Node.span, IsSpan text s := by
  intro s member
  obtain ⟨c, there, rfl⟩ := Option.map_eq_some_iff.1 member
  exact (here c there).isSpan _ rfl

theorem ofKind (here : n.IsOf text.toList) {kind : String} {c : Node}
    (member : c ∈ n.named.filter (·.kind == kind)) : c.IsOf text.toList :=
  here.named (List.mem_filter.1 member).1

theorem named_under (here : n.IsOf text.toList) (field : String) :
    ∀ c ∈ (match n.child? field with
      | some d => d.named
      | none => []), c.IsOf text.toList := by
  split
  · next d found => exact fun c member => (here.child? found).named member
  · exact List.forall_mem_nil _

theorem isSpan_arguments {parameter? : Node → Option VarToken} (here : n.IsOf text.toList)
    (each : ∀ p : Node, p.IsOf text.toList → ∀ a ∈ parameter? p, ∀ s ∈ a.span, IsSpan text s) :
    ∀ a ∈ (match n.child? "parameters" with
      | some ps => ps.named.filterMap parameter?
      | none => []), ∀ s ∈ a.span, IsSpan text s := by
  split
  · next ps found =>
    intro a member
    obtain ⟨p, among, shown⟩ := List.mem_filterMap.1 member
    exact each p ((here.child? found).named among) a shown
  · exact List.forall_mem_nil _

end Node.IsOf

end CodeOutline.Syntax
