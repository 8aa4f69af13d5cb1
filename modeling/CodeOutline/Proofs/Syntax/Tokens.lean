import CodeOutline.Proofs.Syntax.Depth

/-!
Rules that read tokens alone. The text that such a rule reads comes apart as the rule does, down to
the tokens and what is passed in front of them. Where one rule alone makes the nodes of a kind, such
a node has what that rule has read.
-/

set_option autoImplicit false

namespace CodeOutline.Syntax

variable {σ : Type}

structure Cursor.Passes (c : Cursor) (cs : List Char) (stop : Cursor) : Prop where
  text : c.rest = cs ++ stop.rest
  offset : stop.place.offset = c.place.offset + cs.length

namespace Cursor.Passes

variable {c middle stop : Cursor} {cs cs' : List Char}

theorem refl (c : Cursor) : c.Passes [] c := ⟨rfl, rfl⟩

theorem trans (first : c.Passes cs middle) (second : middle.Passes cs' stop) :
    c.Passes (cs ++ cs') stop where
  text := by rw [first.text, second.text, List.append_assoc]
  offset := by rw [second.offset, first.offset, List.length_append, Nat.add_assoc]

theorem unique (one : c.Passes cs stop) (other : c.Passes cs' stop) : cs = cs' :=
  List.append_cancel_right (one.text.symm.trans other.text)

theorem skip (c : Cursor) (n : Nat) : c.Passes (c.rest.take n) (c.skip n) where
  text := by rw [rest_skip, List.take_append_drop]
  offset := by rw [Grammar.offset_skip, List.length_take]

end Cursor.Passes

def Rule.isFlat : Rule σ → Bool
  | .done | .sign _ | .word _ | .leaf _ _ => true
  | .seq a b | .alt a b => a.isFlat && b.isFlat
  | .many a | .inside a => a.isFlat
  | _ => false

namespace Grammar

theorem exists_passes_lead {g : Grammar σ} (c : Cursor) : ∃ gap, c.Passes gap (g.lead c).2 := by
  refine lead_rec (motive := fun c _ stop => ∃ gap, c.Passes gap stop)
    (fun c => ⟨[], .refl c⟩) (fun _ later => ?_) c
  obtain ⟨gap, later⟩ := later
  exact ⟨_, (Cursor.Passes.skip _ _).trans later⟩

/-! ## Rules of tokens -/

inductive Spells (g : Grammar σ) : Rule σ → Cursor → List Char → List Node → Cursor → Prop
  | done {c} : Spells g .done c [] [] c
  | sign {c gap s rest} : c.Passes gap (g.lead c).2 →
      Text.dropStart? s.toList (g.lead c).2.rest = some rest →
      Spells g (.sign s) c (gap ++ (g.lead c).2.rest.take s.length)
        (take (g.lead c).1 (g.lead c).2 s false s.length).1
        (take (g.lead c).1 (g.lead c).2 s false s.length).2
  | word {c gap s rest} : c.Passes gap (g.lead c).2 →
      g.dropWord? s.toList (g.lead c).2.rest = some rest →
      Spells g (.word s) c (gap ++ (g.lead c).2.rest.take s.length)
        (take (g.lead c).1 (g.lead c).2 s false s.length).1
        (take (g.lead c).1 (g.lead c).2 s false s.length).2
  | leaf {c gap kind scan n} : c.Passes gap (g.lead c).2 → scan (g.lead c).2.rest = some n →
      Spells g (.leaf kind scan) c (gap ++ (g.lead c).2.rest.take n)
        (take (g.lead c).1 (g.lead c).2 kind true n).1
        (take (g.lead c).1 (g.lead c).2 kind true n).2
  | seq {a b c cs xs middle cs' ys stop} : Spells g a c cs xs middle →
      Spells g b middle cs' ys stop → Spells g (.seq a b) c (cs ++ cs') (xs ++ ys) stop
  | altLeft {a b c cs xs stop} : Spells g a c cs xs stop → Spells g (.alt a b) c cs xs stop
  | altRight {a b c cs xs stop} : Spells g b c cs xs stop → Spells g (.alt a b) c cs xs stop
  | manyNone {a c} : Spells g (.many a) c [] [] c
  | manyMore {a c cs xs middle cs' ys stop} : Spells g a c cs xs middle →
      Spells g (.many a) middle cs' ys stop → Spells g (.many a) c (cs ++ cs') (xs ++ ys) stop
  | inside {a c cs xs stop} : Spells g a { c with depth := c.depth + 1 } cs xs stop →
      Spells g (.inside a) c cs xs { stop with depth := c.depth }

variable {g : Grammar σ} {a : Rule σ} {c stop : Cursor} {cs : List Char} {left xs : List Node}

theorem spells_of_derives (derived : g.Derives left a c xs stop) (flat : a.isFlat = true) :
    ∃ cs, g.Spells a c cs xs stop := by
  induction derived with
  | done => exact ⟨_, .done⟩
  | seq _ _ first second =>
    obtain ⟨flat, flat'⟩ := Bool.and_eq_true_iff.1 flat
    obtain ⟨cs, spelled⟩ := first flat
    obtain ⟨cs', spelled'⟩ := second flat'
    exact ⟨_, .seq spelled spelled'⟩
  | altLeft _ ih =>
    obtain ⟨cs, spelled⟩ := ih (Bool.and_eq_true_iff.1 flat).1
    exact ⟨cs, .altLeft spelled⟩
  | altRight _ ih =>
    obtain ⟨cs, spelled⟩ := ih (Bool.and_eq_true_iff.1 flat).2
    exact ⟨cs, .altRight spelled⟩
  | manyNone => exact ⟨_, .manyNone⟩
  | manyOne _ ih =>
    obtain ⟨cs, spelled⟩ := ih flat
    have all := Spells.manyMore spelled .manyNone
    rw [List.append_nil, List.append_nil] at all
    exact ⟨cs, all⟩
  | manyMore _ _ first others =>
    obtain ⟨cs, spelled⟩ := first flat
    obtain ⟨cs', spelled'⟩ := others flat
    exact ⟨_, .manyMore spelled spelled'⟩
  | sign fits =>
    obtain ⟨gap, led⟩ := exists_passes_lead (g := g) _
    exact ⟨_, .sign led fits⟩
  | word fits =>
    obtain ⟨gap, led⟩ := exists_passes_lead (g := g) _
    exact ⟨_, .word led fits⟩
  | leaf fits =>
    obtain ⟨gap, led⟩ := exists_passes_lead (g := g) _
    exact ⟨_, .leaf led fits⟩
  | inside _ ih =>
    obtain ⟨cs, spelled⟩ := ih flat
    exact ⟨cs, .inside spelled⟩
  | _ => cases flat

namespace Spells

theorem passes (spelled : g.Spells a c cs xs stop) : c.Passes cs stop := by
  induction spelled with
  | done | manyNone => exact .refl _
  | sign led _ | word led _ | leaf led _ => exact led.trans (.skip _ _)
  | seq _ _ first second => exact first.trans second
  | altLeft _ ih | altRight _ ih => exact ih
  | manyMore _ _ first others => exact first.trans others
  | inside _ ih => exact ⟨ih.text, ih.offset⟩

theorem many_rec {motive : Cursor → List Char → List Node → Cursor → Prop}
    (spelled : g.Spells (.many a) c cs xs stop) (none_ : ∀ c, motive c [] [] c)
    (more : ∀ {c middle stop cs cs' xs ys}, g.Spells a c cs xs middle →
      motive middle cs' ys stop → motive c (cs ++ cs') (xs ++ ys) stop) :
    motive c cs xs stop := by
  generalize same : Rule.many a = b at spelled
  induction spelled with
  | manyNone => exact none_ _
  | manyMore first _ _ others =>
    cases same
    exact more first (others rfl)
  | _ => cases same

theorem stop_eq (spelled : g.Spells a c cs xs stop) :
    (xs = [] ∧ stop.place = c.place) ∨ ∃ x ∈ xs.getLast?, x.stop = stop.place := by
  have both {xs ys : List Node} {c middle stop : Cursor}
      (first : (xs = [] ∧ middle.place = c.place) ∨ ∃ x ∈ xs.getLast?, x.stop = middle.place)
      (second : (ys = [] ∧ stop.place = middle.place) ∨ ∃ y ∈ ys.getLast?, y.stop = stop.place) :
      (xs ++ ys = [] ∧ stop.place = c.place) ∨ ∃ x ∈ (xs ++ ys).getLast?, x.stop = stop.place := by
    rcases second with ⟨rfl, still⟩ | ⟨y, last, ends⟩
    · rw [List.append_nil, still]
      exact first
    · refine .inr ⟨y, ?_, ends⟩
      rw [List.getLast?_append, Option.mem_def.1 last]
      rfl
  induction spelled with
  | done | manyNone => exact .inl ⟨rfl, rfl⟩
  | sign | word | leaf => exact .inr ⟨_, List.getLast?_concat, rfl⟩
  | seq _ _ first second => exact both first second
  | altLeft _ ih | altRight _ ih => exact ih
  | manyMore _ _ first others => exact both first others
  | inside _ ih => exact ih

end Spells

/-! ## Nodes of one kind -/

section Kinds

variable {kinds : String → Prop}
  (comments : ∀ depth cs n kind, g.between depth cs = some (n, some kind) → kinds kind)

include comments

theorem kind_of_lead (c : Cursor) : ∀ x ∈ (g.lead c).1, kinds x.kind := by
  refine lead_rec (motive := fun _ xs _ => ∀ x ∈ xs, kinds x.kind)
    (fun _ => List.forall_mem_nil _) (fun {_ _ _ kind _} found later => ?_) c
  cases kind with
  | none => exact later
  | some kind => exact List.forall_mem_cons.2 ⟨comments _ _ _ _ found, later⟩

theorem kind_of_extra (derived : g.Derives left a c xs stop)
    (before : ∀ x ∈ left, x.isExtra = true → kinds x.kind) :
    ∀ x ∈ xs, x.isExtra = true → kinds x.kind := by
  have token {c : Cursor} {extras : List Node} {kind : String} {isNamed : Bool} {n : Nat}
      (before : ∀ x ∈ extras, x.isExtra = true → kinds x.kind) :
      ∀ x ∈ (take extras c kind isNamed n).1, x.isExtra = true → kinds x.kind :=
    List.forall_mem_append.2 ⟨before, List.forall_mem_singleton.2 (fun extra => nomatch extra)⟩
  have enclosed {c stop : Cursor} {kind : String} {xs : List Node}
      (inner : ∀ x ∈ xs, x.isExtra = true → kinds x.kind) :
      ∀ x ∈ c.enclose stop kind xs, x.isExtra = true → kinds x.kind := by
    have outer : ∀ x ∈ (splitExtras xs).1, x.isExtra = true → kinds x.kind :=
      fun x member => inner x ((mem_splitExtras xs).1 (.inl member))
    unfold Cursor.enclose
    dsimp only
    split <;>
      exact List.forall_mem_append.2
        ⟨outer, List.forall_mem_singleton.2 (fun extra => nomatch extra)⟩
  have assigned {role : String} {xs : List Node}
      (inner : ∀ x ∈ xs, x.isExtra = true → kinds x.kind) :
      ∀ x ∈ assignField role xs, x.isExtra = true → kinds x.kind := by
    intro x member
    rcases mem_assignField member with ⟨there, -⟩ | ⟨y, there, -, rfl⟩
    · exact inner x there
    · exact inner y there
  have nothing : ∀ x ∈ ([] : List Node), x.isExtra = true → kinds x.kind := List.forall_mem_nil _
  induction derived with
  | done | test | ahead | notAhead | move | manyNone => exact nothing
  | call _ ih | altLeft _ ih | altRight _ ih => exact ih before
  | manyOne _ ih | inside _ ih => exact ih nothing
  | seq _ _ first second => exact List.forall_mem_append.2 ⟨first nothing, second nothing⟩
  | manyMore _ _ first others => exact List.forall_mem_append.2 ⟨first nothing, others nothing⟩
  | sign | word | longest | leaf => exact token (fun x member _ => kind_of_lead comments _ x member)
  | near | placed => exact token nothing
  | node _ _ ih => exact enclosed (ih nothing)
  | field _ ih => exact assigned (ih before)
  | chain _ _ base growth => exact growth (base nothing)
  | growNone => exact before
  | growMore _ _ one others => exact others (one before)
  | wrap _ ih => exact enclosed (List.forall_mem_append.2 ⟨assigned before, ih nothing⟩)

end Kinds

theorem of_enclose {c stop : Cursor} {kind : String} {extras zs : List Node} {n t : Node}
    (comments : ∀ x ∈ extras, x.isExtra = true) (token : t.isExtra = false)
    (member : n ∈ c.enclose stop kind (extras ++ t :: zs)) (proper : n.isExtra = false) :
    n.start = t.start ∧ n.tail = t.tail ∧ n.children = t :: zs ∧
      ∃ last ∈ (t :: zs).getLast?, n.stop = last.stop := by
  have parts : splitExtras (extras ++ t :: zs) = (extras, t :: zs) := by
    rw [splitExtras, List.takeWhile_append_of_pos comments, List.dropWhile_append_of_pos comments,
      List.takeWhile_cons_of_neg (by simp [token]), List.dropWhile_cons_of_neg (by simp [token]),
      List.append_nil]
  have last := List.getLast?_eq_some_getLast (List.cons_ne_nil t zs)
  rw [Cursor.enclose, parts] at member
  simp only [last] at member
  rcases List.mem_append.1 member with extra | new
  · rw [comments n extra] at proper
    cases proper
  · obtain rfl := List.mem_singleton.1 new
    exact ⟨rfl, rfl, rfl, _, last, rfl⟩

theorem exists_kind_enclose (c stop : Cursor) (kind : String) (xs : List Node) :
    ∃ x ∈ c.enclose stop kind xs, x.kind = kind := by
  unfold Cursor.enclose
  dsimp only
  split <;> exact ⟨_, List.mem_append_right _ (List.mem_singleton_self _), rfl⟩

end Grammar

/-- Where the rule itself lists a node of the kind, it is made by reading the inner rule. Rules that
it calls are among the known ones. -/
def Rule.Lists (kind : String) (inner : Rule σ) (known : σ → Prop) : Rule σ → Prop
  | .seq a b | .alt a b => Lists kind inner known a ∧ Lists kind inner known b
  | .many a | .inside a => Lists kind inner known a
  | .sign s | .word s => s ≠ kind
  | .leaf k _ => k ≠ kind
  | .node k a => k = kind → a = inner
  | .call name => known name
  | .done | .never | .test _ | .move _ | .ahead _ | .notAhead _ => True
  | _ => False

def Rule.omits (kind : String) (known : σ → Bool) : Rule σ → Bool
  | .seq a b | .alt a b => a.omits kind known && b.omits kind known
  | .many a | .inside a => a.omits kind known
  | .sign s | .word s => s != kind
  | .leaf k _ | .node k _ => k != kind
  | .call name => known name
  | .done | .never | .test _ | .move _ | .ahead _ | .notAhead _ => true
  | _ => false

theorem Rule.lists_of_omits {kind : String} {inner a : Rule σ} {known : σ → Bool}
    (omits : a.omits kind known = true) : Lists kind inner (known · = true) a := by
  induction a with
  | seq a b iha ihb | alt a b iha ihb =>
    simp only [Rule.omits, Bool.and_eq_true] at omits
    exact ⟨iha omits.1, ihb omits.2⟩
  | many a ih | inside a ih => exact ih omits
  | sign s | word s | leaf k => exact bne_iff_ne.1 omits
  | node k a => exact fun same => absurd same (bne_iff_ne.1 omits)
  | call name => exact omits
  | done | never | test | move | ahead | notAhead => trivial
  | _ => cases omits

namespace Grammar

variable {g : Grammar σ} {a inner : Rule σ} {c stop : Cursor} {left xs : List Node} {x : Node}
  {kind : String} {known : σ → Prop}

theorem derives_of_listed (rules : ∀ name, known name → Rule.Lists kind inner known (g.rule name))
    (derived : g.Derives left a c xs stop) (lists : Rule.Lists kind inner known a) :
    ∀ x ∈ xs, x.isExtra = false → x.kind = kind →
      ∃ c' ys stop', g.Derives [] inner c' ys stop' ∧ x ∈ c'.enclose stop' kind ys := by
  have token {c : Cursor} {k : String} {isNamed : Bool} {n : Nat} (other : k ≠ kind) :
      ∀ x ∈ (take (g.lead c).1 (g.lead c).2 k isNamed n).1, x.isExtra = false → x.kind = kind →
        ∃ c' ys stop', g.Derives [] inner c' ys stop' ∧ x ∈ c'.enclose stop' kind ys := by
    refine List.forall_mem_append.2 ⟨fun x member proper => ?_, ?_⟩
    · rw [(comment_of_lead member).1] at proper
      cases proper
    · exact List.forall_mem_singleton.2 (fun _ same => absurd same other)
  induction derived with
  | done | test | ahead | notAhead | move | manyNone => exact List.forall_mem_nil _
  | call _ ih => exact ih (rules _ lists)
  | seq _ _ first second => exact List.forall_mem_append.2 ⟨first lists.1, second lists.2⟩
  | altLeft _ ih => exact ih lists.1
  | altRight _ ih => exact ih lists.2
  | manyOne _ ih | inside _ ih => exact ih lists
  | manyMore _ _ first others => exact List.forall_mem_append.2 ⟨first lists, others lists⟩
  | sign | word | leaf => exact token lists
  | @node _ c k a ys stop _ _ derived =>
    intro x member proper same
    have comment {x : Node} (extra : x ∈ (splitExtras ys).1) : x.isExtra = true :=
      List.all_eq_true.1 List.all_takeWhile x extra
    have own : k = kind := by
      unfold Cursor.enclose at member
      dsimp only at member
      split at member
      all_goals
        rcases List.mem_append.1 member with extra | new
        · rw [comment extra] at proper
          cases proper
        · obtain rfl := List.mem_singleton.1 new
          exact same
    obtain rfl := lists own
    subst own
    exact ⟨c, ys, stop, derived, member⟩
  | longest | near | placed | field | chain | growNone | growMore | wrap => exact lists.elim

end Grammar

end CodeOutline.Syntax
