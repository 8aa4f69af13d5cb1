import CodeOutline.Proofs.Syntax.Insertion

/-!
What nodes and their copies have in common. A node in which the place of the comment does not stand
has the text of its copy, and no comment is added in it.
-/

set_option autoImplicit false

namespace CodeOutline.Syntax.Insertion

variable {i : Insertion} {n n' : Node} {xs xs' : List Node} {kind : String}

/-- The place of the comment stands in the node, or at its end. -/
def Around (i : Insertion) (n : Node) : Prop :=
  n.start.offset < i.front.length ∧ i.front.length ≤ n.stop.offset

/-- What the node has in front of the place. -/
def before (i : Insertion) (n : Node) : List Char :=
  n.tail.take (i.front.length - n.start.offset)

theorem Around.of_child {c : Node} (around : i.Around c) (nested : n.IsNested)
    (member : c ∈ n.children) : i.Around n :=
  ⟨Nat.lt_of_le_of_lt (nested.start_le member) around.1,
    Nat.le_trans around.2 (nested.stop_le member)⟩

theorem Stands.offset {p p' : Place} {rest rest' : List Char} (stands : i.Stands p rest p' rest') :
    (p.offset < i.front.length ∧ p'.offset = p.offset) ∨
      (i.front.length ≤ p.offset ∧ p'.offset = p.offset + i.comment.length) := by
  cases stands with
  | before parts some_ =>
    have whole := congrArg List.length parts
    have present := List.length_pos_iff.2 some_
    rw [List.length_append] at whole
    rw [Place.behind_offset]
    exact .inl ⟨by omega, rfl⟩
  | behind =>
    simp only [Place.behind_offset, List.length_append]
    omega

/-! ## Texts -/

/-- The same characters follow a place and its copy up to another one, unless the comment stands
between the two. -/
theorem Stands.take {p p' q q' : Place} {rest rest' more more' : List Char}
    (stands : i.Stands p rest p' rest') (ends : i.Stands q more q' more')
    (apart : ¬(p.offset < i.front.length ∧ i.front.length ≤ q.offset)) :
    rest.take (q.offset - p.offset) = rest'.take (q'.offset - p'.offset) := by
  have last := ends.offset
  cases stands with
  | @before passed rest parts some_ =>
    have whole := congrArg List.length parts
    have present := List.length_pos_iff.2 some_
    rw [List.length_append] at whole
    simp only [Place.behind_offset] at apart ⊢
    have less : q.offset - passed.length ≤ rest.length := by omega
    obtain ⟨-, same⟩ : q.offset < i.front.length ∧ q'.offset = q.offset := by omega
    rw [same, List.take_append_of_le_length less, List.take_append_of_le_length less]
  | @behind passed =>
    refine congrArg (List.take · _) ?_
    simp only [Place.behind_offset, List.length_append]
    omega

theorem Stands.take_around {p p' q q' : Place} {rest rest' more more' : List Char}
    (stands : i.Stands p rest p' rest') (ends : i.Stands q more q' more')
    (around : p.offset < i.front.length ∧ i.front.length ≤ q.offset) :
    ∃ behind, rest.take (q.offset - p.offset) =
        rest.take (i.front.length - p.offset) ++ behind ∧
      rest'.take (q'.offset - p'.offset) =
        rest.take (i.front.length - p.offset) ++ (i.comment ++ behind) := by
  have last := ends.offset
  cases stands with
  | @before passed rest parts some_ =>
    have whole := congrArg List.length parts
    rw [List.length_append] at whole
    simp only [Place.behind_offset] at around ⊢
    obtain ⟨m, far⟩ := Nat.exists_eq_add_of_le around.2
    obtain ⟨-, far'⟩ : i.front.length ≤ q.offset ∧ q'.offset = q.offset + i.comment.length := by
      omega
    have bare : q.offset - passed.length = rest.length + m := by omega
    have commented : q'.offset - passed.length = rest.length + (i.comment.length + m) := by omega
    have front : i.front.length - passed.length = rest.length := by omega
    rw [bare, commented, front, List.take_left, List.take_length_add_append,
      List.take_length_add_append, List.take_length_add_append]
    exact ⟨i.back.take m, rfl, rfl⟩
  | behind =>
    simp only [Place.behind_offset, List.length_append] at around
    omega

theorem Alike.chars (alike : i.Alike n n') (apart : ¬i.Around n) : n.chars = n'.chars := by
  obtain ⟨_, _, ends⟩ := alike.stop
  exact alike.start.take ends apart

theorem Alike.text (alike : i.Alike n n') (apart : ¬i.Around n) : n.text = n'.text :=
  congrArg String.ofList (alike.chars apart)

theorem Alike.textBefore {m m' : Node} (alike : i.Alike n n') (later : i.Alike m m')
    (apart : ¬(n.start.offset < i.front.length ∧ i.front.length ≤ m.start.offset)) :
    n.textBefore m = n'.textBefore m' :=
  congrArg String.ofList (alike.start.take later.start apart)

theorem Alike.chars_of_around (alike : i.Alike n n') (around : i.Around n) :
    ∃ behind, n.chars = i.before n ++ behind ∧
      n'.chars = i.before n ++ (i.comment ++ behind) := by
  obtain ⟨_, _, ends⟩ := alike.stop
  exact alike.start.take_around ends around

/-! ## Children -/

theorem Alike.around_of_isComment (alike : i.Alike n n') (nested : n'.IsNested)
    (filled : i.comment ≠ []) {x : Node} (member : x ∈ n'.children) (isComment : i.IsComment x) :
    i.Around n := by
  obtain ⟨_, _, ends⟩ := alike.stop
  have first := alike.start.offset
  have last := ends.offset
  have starts := nested.start_le member
  have stops := nested.stop_le member
  have some_ := List.length_pos_iff.2 filled
  rw [isComment.start] at starts
  rw [isComment.stop] at stops
  unfold Around
  omega

theorem Copies.filterMap_eq {β : Type} {f : Node → Option β} (copies : i.Copies xs xs')
    (other : kind ≠ "comment")
    (each : ∀ n ∈ xs, ∀ n' ∈ xs', n.isNamed = true → n.kind = kind → i.Alike n n' →
      i.Copies n.children n'.children → f n = f n') :
    ((xs.filter (·.isNamed)).filter (·.kind == kind)).filterMap f =
      ((xs'.filter (·.isNamed)).filter (·.kind == kind)).filterMap f := by
  simp only [List.filter_filter]
  induction copies with
  | nil => rfl
  | @cons n n' ns ns' alike kids _ _ ih =>
    have rest := ih fun m member m' member' =>
      each m (List.mem_cons_of_mem n member) m' (List.mem_cons_of_mem n' member')
    rw [List.filter_cons, List.filter_cons, ← alike.kind, ← alike.isNamed]
    by_cases fits : (n.kind == kind && n.isNamed) = true
    · have here := fits
      rw [Bool.and_eq_true, beq_iff_eq] at here
      have same := each n List.mem_cons_self n' List.mem_cons_self here.2 here.1 alike kids
      rw [if_pos fits, if_pos fits, List.filterMap_cons, List.filterMap_cons, same, rest]
    · rw [if_neg fits, if_neg fits, rest]
  | @comment x n ns ns' isComment _ ih =>
    have rest := ih fun m member m' member' => each m member m' (List.mem_cons_of_mem x member')
    have skipped : ¬(x.kind == kind && x.isNamed) = true := by
      rw [isComment.kind, Bool.and_eq_true, beq_iff_eq]
      exact fun both => other both.1.symm
    rw [rest, List.filter_cons, if_neg skipped]

theorem Copies.texts (copies : i.Copies xs xs') (apart : ∀ n ∈ xs, ¬i.Around n)
    (free : ∀ x ∈ xs', ¬i.IsComment x) :
    (xs.filter (·.isNamed)).map (·.text) = (xs'.filter (·.isNamed)).map (·.text) := by
  induction copies with
  | nil => rfl
  | @cons n n' ns ns' alike _ _ _ ih =>
    rw [List.forall_mem_cons] at apart free
    rw [List.filter_cons, List.filter_cons, ← alike.isNamed]
    split
    · rw [List.map_cons, List.map_cons, alike.text apart.1, ih apart.2 free.2]
    · exact ih apart.2 free.2
  | comment isComment => exact absurd isComment (free _ List.mem_cons_self)

theorem Copies.first? (copies : i.Copies n.children n'.children) (other : kind ≠ "comment") :
    (n.first? kind = none ∧ n'.first? kind = none) ∨
      ∃ m m', n.first? kind = some m ∧ n'.first? kind = some m' ∧ m ∈ n.children ∧
        m' ∈ n'.children ∧ i.Alike m m' ∧ i.Copies m.children m'.children := by
  unfold Node.first? Node.named
  simp only [List.find?_filter]
  generalize n.children = xs, n'.children = xs' at copies
  induction copies with
  | nil => exact .inl ⟨rfl, rfl⟩
  | @cons m m' ns ns' alike kids _ _ ih =>
    rw [List.find?_cons, List.find?_cons, ← alike.kind, ← alike.isNamed]
    split
    · exact .inr ⟨m, m', rfl, rfl, List.mem_cons_self, List.mem_cons_self, alike, kids⟩
    · rcases ih with fails | ⟨k, k', found, found', member, member', rest⟩
      · exact .inl fails
      · exact .inr ⟨k, k', found, found', List.mem_cons_of_mem m member,
          List.mem_cons_of_mem m' member', rest⟩
  | @comment x m ns ns' isComment _ ih =>
    have skipped : decide (x.isNamed = true ∧ (x.kind == kind) = true) = false := by
      rw [isComment.kind]
      exact decide_eq_false fun both => other (beq_iff_eq.1 both.2).symm
    rw [List.find?_cons (a := x), skipped]
    rcases ih with fails | ⟨k, k', found, found', member, member', rest⟩
    · exact .inl fails
    · exact .inr ⟨k, k', found, found', member, List.mem_cons_of_mem x member', rest⟩

end CodeOutline.Syntax.Insertion
