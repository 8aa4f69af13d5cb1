import CodeOutline.Proofs.Syntax.Derivations
import CodeOutline.Proofs.Syntax.Nodes
import CodeOutline.Proofs.Syntax.Reading

/-!
The bound of the depth. When every token takes a character and no rule stands inside itself before
one is taken, rules stand at most so deep inside each other as their height and the length of the
text allow. With every bound from there on the reader gives the same.
-/

set_option autoImplicit false

namespace CodeOutline.Syntax

variable {σ : Type}

/-! ## Tokens that are not empty -/

/-- The scan takes at least one character, and nothing at the end. -/
structure Scan.Fills (a : Scan) : Prop where
  nil : a [] = none
  some : ∀ cs, a cs ≠ some 0

namespace Scan.Fills

variable {a b : Scan}

theorem one (p : Char → Bool) : (one p).Fills where
  nil := rfl
  some cs := by
    cases cs with
    | nil => simp [Scan.one]
    | cons c cs =>
      rw [Scan.one]
      split <;> simp

theorem text {s : String} (filled : s ≠ "") : (text s).Fills := by
  refine ⟨?_, fun cs => ?_⟩
  · unfold Scan.text
    cases letters : s.toList with
    | nil => exact absurd (String.toList_eq_nil_iff.1 letters) filled
    | cons c cs => rfl
  · unfold Scan.text
    cases Text.dropStart? s.toList cs with
    | none => simp
    | some rest =>
      rw [Option.map_some, Ne, Option.some_inj]
      rwa [← String.length_toList, List.length_eq_zero_iff, String.toList_eq_nil_iff]

theorem run1 (p : Char → Bool) : (run1 p).Fills where
  nil := rfl
  some cs := by
    unfold Scan.run1
    split <;> simp_all

theorem seq_left (first : a.Fills) (b : Scan) : (seq a b).Fills where
  nil := by
    unfold Scan.seq
    rw [first.nil]
    rfl
  some cs := by
    intro taken
    obtain ⟨n, one, more⟩ := Option.bind_eq_some_iff.1 taken
    obtain ⟨m, other, sum⟩ := Option.bind_eq_some_iff.1 more
    have zero : n + m = 0 := Option.some.inj sum
    obtain rfl : n = 0 := by omega
    exact first.some cs one

theorem seq_right (a : Scan) (second : b.Fills) : (seq a b).Fills where
  nil := by
    unfold Scan.seq
    cases a [] with
    | none => rfl
    | some n =>
      rw [Option.bind_eq_bind, Option.bind_some, List.drop_nil, second.nil]
      rfl
  some cs := by
    intro taken
    obtain ⟨n, one, more⟩ := Option.bind_eq_some_iff.1 taken
    obtain ⟨m, other, sum⟩ := Option.bind_eq_some_iff.1 more
    have zero : n + m = 0 := Option.some.inj sum
    obtain rfl : m = 0 := by omega
    exact second.some _ other

theorem alt (first : a.Fills) (second : b.Fills) : (alt a b).Fills where
  nil := by
    unfold Scan.alt
    rw [first.nil, second.nil]
    rfl
  some cs := by
    unfold Scan.alt
    cases found : a cs with
    | none => exact second.some cs
    | some n =>
      intro empty
      exact first.some cs (found.trans empty)

theorem such (p : List Char → Bool) (inner : a.Fills) : (such p a).Fills where
  nil := by
    unfold Scan.such
    rw [inner.nil]
    rfl
  some cs := by
    intro taken
    obtain ⟨n, one, more⟩ := Option.bind_eq_some_iff.1 taken
    split at more
    · obtain rfl : n = 0 := Option.some.inj more
      exact inner.some cs one
    · cases more

theorem all_of_mem {list : List Scan} (member : a ∈ list) (fills : a.Fills) :
    (Scan.all list).Fills := by
  induction list with
  | nil => cases member
  | cons b list ih =>
    rcases List.mem_cons.1 member with rfl | later
    · exact .seq_left fills _
    · exact .seq_right _ (ih later)

end Scan.Fills

/-! ## Heights -/

namespace Rule

/-- All tokens of the rule take characters, and none of its parts moves the cursor otherwise. -/
def IsPlain : Rule σ → Prop
  | .seq a b | .alt a b | .chain a b => a.IsPlain ∧ b.IsPlain
  | .many a | .node _ a | .field _ a | .grow a | .wrap _ _ a | .ahead a | .notAhead a | .inside a =>
    a.IsPlain
  | .leaf _ scan => scan.Fills
  | .near _ _ | .placed _ _ | .longest _ _ | .move _ => False
  | _ => True

variable (fills : σ → Bool) (height : σ → Nat)

def takesSome : Rule σ → Bool
  | .never | .leaf _ _ => true
  | .call name => fills name
  | .seq a b => a.takesSome || b.takesSome
  | .alt a b => a.takesSome && b.takesSome
  | .sign s | .word s => s != ""
  | .node _ a | .field _ a | .wrap _ _ a | .inside a | .chain a _ => a.takesSome
  | _ => false

def heightBy : Rule σ → Nat
  | .call name => height name + 1
  | .seq a b => (if a.takesSome fills then a.heightBy else max a.heightBy b.heightBy) + 1
  | .alt a b => max a.heightBy b.heightBy + 1
  | .many a | .node _ a | .field _ a | .grow a | .wrap _ _ a | .ahead a | .notAhead a | .inside a =>
    a.heightBy + 1
  | .chain a step => max a.heightBy (step.heightBy + 1) + 1
  | _ => 1

/-- No part of the rule that begins behind others is higher than the bound, and growth takes
characters. -/
def within (bound : Nat) : Rule σ → Bool
  | .seq a b => a.within bound && b.within bound && decide (b.heightBy fills height ≤ bound)
  | .alt a b => a.within bound && b.within bound
  | .many a => a.within bound && decide (a.heightBy fills height + 1 ≤ bound)
  | .grow a =>
    a.within bound && a.takesSome fills && decide (a.heightBy fills height + 1 ≤ bound)
  | .chain a step => a.within bound && step.within bound && step.takesSome fills &&
      decide (step.heightBy fills height + 1 ≤ bound)
  | .node _ a | .field _ a | .wrap _ _ a | .ahead a | .notAhead a | .inside a => a.within bound
  | _ => true

theorem heightBy_pos (a : Rule σ) : 0 < a.heightBy fills height := by
  cases a <;> exact Nat.succ_pos _

end Rule

structure Grammar.Measured (g : Grammar σ) (fills : σ → Bool) (height : σ → Nat) (bound : Nat) :
    Prop where
  plain : ∀ name, (g.rule name).IsPlain
  takesSome : ∀ name, fills name = true → (g.rule name).takesSome fills = true
  height_le : ∀ name, (g.rule name).heightBy fills height ≤ height name
  within : ∀ name, (g.rule name).within fills height bound = true

/-! ## Progress -/

theorem Cursor.rest_skip (c : Cursor) (n : Nat) : (c.skip n).rest = c.rest.drop n := by
  induction n generalizing c with
  | zero => rfl
  | succ n ih =>
    rw [skip]
    split
    · next empty => rw [empty, List.drop_nil]
    · next d ds rest => rw [ih, rest, List.drop_succ_cons]

namespace Grammar

variable {g : Grammar σ} {fills : σ → Bool} {height : σ → Nat} {bound n k : Nat} {a : Rule σ}
  {c stop : Cursor} {left xs : List Node}

theorem length_lead_le (c : Cursor) : (g.lead c).2.rest.length ≤ c.rest.length := by
  refine lead_rec (motive := fun c _ stop => stop.rest.length ≤ c.rest.length)
    (fun _ => Nat.le_refl _) (fun _ later => ?_) c
  rw [Cursor.rest_skip, List.length_drop] at later
  exact Nat.le_trans later (Nat.sub_le _ _)

theorem length_take_lt {extras : List Node} {kind : String} {isNamed : Bool}
    (filled : (g.lead c).2.rest ≠ []) (some_ : n ≠ 0) :
    (take extras (g.lead c).2 kind isNamed n).2.rest.length < c.rest.length := by
  have led := length_lead_le (g := g) c
  have present := List.length_pos_iff.2 filled
  show ((g.lead c).2.skip n).rest.length < c.rest.length
  rw [Cursor.rest_skip, List.length_drop]
  omega

theorem length_of_dropStart? {start cs rest : List Char}
    (found : Text.dropStart? start cs = some rest) : cs.length = start.length + rest.length := by
  rw [← Scan.append_of_dropStart? found, List.length_append]

theorem length_of_dropWord? {start cs rest : List Char}
    (found : g.dropWord? start cs = some rest) : cs.length = start.length + rest.length := by
  induction start generalizing cs with
  | nil =>
    cases found
    simp
  | cons w start ih =>
    cases cs with
    | nil => cases found
    | cons d cs =>
      rw [dropWord?] at found
      split at found
      · have shorter := ih found
        simp only [List.length_cons]
        omega
      · cases found

theorem offset_add_length_skip (c : Cursor) (n : Nat) :
    (c.skip n).place.offset + (c.skip n).rest.length = c.place.offset + c.rest.length := by
  rw [offset_skip, Cursor.rest_skip, List.length_drop]
  omega

theorem offset_add_length_lead (c : Cursor) :
    (g.lead c).2.place.offset + (g.lead c).2.rest.length = c.place.offset + c.rest.length :=
  lead_rec (motive := fun c _ stop =>
      stop.place.offset + stop.rest.length = c.place.offset + c.rest.length)
    (fun _ => rfl) (fun _ later => later.trans (offset_add_length_skip _ _)) c

/-- What a rule does to the text before the cursor: none of it is lost, it gets no longer, and it
gets shorter if the rule takes a character. -/
theorem length_of_run (measured : g.Measured fills height bound)
    (run : g.run n left a c = some (xs, stop)) (plain : a.IsPlain) :
    stop.place.offset + stop.rest.length = c.place.offset + c.rest.length ∧
      stop.rest.length ≤ c.rest.length ∧
      (a.takesSome fills = true → stop.rest.length < c.rest.length) := by
  have still {p : Prop} (c : Cursor) (never : ¬p) :
      c.place.offset + c.rest.length = c.place.offset + c.rest.length ∧
        c.rest.length ≤ c.rest.length ∧ (p → c.rest.length < c.rest.length) :=
    ⟨rfl, Nat.le_refl _, fun holds => absurd holds never⟩
  have token {c : Cursor} {n : Nat} (extras : List Node) (kind : String) (isNamed : Bool) :
      (take extras (g.lead c).2 kind isNamed n).2.place.offset +
        (take extras (g.lead c).2 kind isNamed n).2.rest.length =
          c.place.offset + c.rest.length ∧
      (take extras (g.lead c).2 kind isNamed n).2.rest.length ≤ c.rest.length := by
    refine ⟨(offset_add_length_skip _ n).trans (offset_add_length_lead c), ?_⟩
    have led := length_lead_le (g := g) c
    show ((g.lead c).2.skip n).rest.length ≤ c.rest.length
    rw [Cursor.rest_skip, List.length_drop]
    omega
  have derived := derives_of_run run
  clear run
  induction derived with
  | done | test | ahead | notAhead | manyNone | growNone => exact still _ Bool.false_ne_true
  | move | longest | near | placed => exact plain.elim
  | call _ ih =>
    obtain ⟨sum, less, shorter⟩ := ih (measured.plain _)
    exact ⟨sum, less, fun some_ => shorter (measured.takesSome _ some_)⟩
  | seq _ _ first second =>
    obtain ⟨sum, less, shorter⟩ := first plain.1
    obtain ⟨sum', less', shorter'⟩ := second plain.2
    refine ⟨sum'.trans sum, Nat.le_trans less' less, fun some_ => ?_⟩
    rcases Bool.or_eq_true_iff.1 some_ with one | other
    · exact Nat.lt_of_le_of_lt less' (shorter one)
    · exact Nat.lt_of_lt_of_le (shorter' other) less
  | altLeft _ ih =>
    obtain ⟨sum, less, shorter⟩ := ih plain.1
    exact ⟨sum, less, fun some_ => shorter (Bool.and_eq_true_iff.1 some_).1⟩
  | altRight _ ih =>
    obtain ⟨sum, less, shorter⟩ := ih plain.2
    exact ⟨sum, less, fun some_ => shorter (Bool.and_eq_true_iff.1 some_).2⟩
  | manyOne _ ih =>
    obtain ⟨sum, less, -⟩ := ih plain
    exact ⟨sum, less, fun some_ => absurd some_ Bool.false_ne_true⟩
  | manyMore _ _ first others =>
    obtain ⟨sum, less, -⟩ := first plain
    obtain ⟨sum', less', -⟩ := others plain
    exact ⟨sum'.trans sum, Nat.le_trans less' less, fun some_ => absurd some_ Bool.false_ne_true⟩
  | @sign _ c s rest fits =>
    obtain ⟨sum, less⟩ := token (g.lead c).1 s false
    refine ⟨sum, less, fun some_ => ?_⟩
    have count := length_of_dropStart? fits
    have filled : s.length ≠ 0 := by
      rw [Ne, ← String.length_toList, List.length_eq_zero_iff, String.toList_eq_nil_iff]
      simpa [Rule.takesSome] using some_
    refine length_take_lt ?_ filled
    rw [← List.length_pos_iff, count, String.length_toList]
    omega
  | @word _ c s rest fits =>
    obtain ⟨sum, less⟩ := token (g.lead c).1 s false
    refine ⟨sum, less, fun some_ => ?_⟩
    have count := length_of_dropWord? fits
    have filled : s.length ≠ 0 := by
      rw [Ne, ← String.length_toList, List.length_eq_zero_iff, String.toList_eq_nil_iff]
      simpa [Rule.takesSome] using some_
    refine length_take_lt ?_ filled
    rw [← List.length_pos_iff, count, String.length_toList]
    omega
  | @leaf _ c kind scan n fits =>
    obtain ⟨sum, less⟩ := token (g.lead c).1 kind true
    refine ⟨sum, less, fun _ => length_take_lt ?_ ?_⟩
    · intro empty
      rw [empty, plain.nil] at fits
      cases fits
    · rintro rfl
      exact plain.some _ fits
  | node _ _ ih | field _ ih | wrap _ ih => exact ih plain
  | chain _ _ base growth =>
    obtain ⟨sum, less, shorter⟩ := base plain.1
    obtain ⟨sum', less', -⟩ := growth plain.2
    exact ⟨sum'.trans sum, Nat.le_trans less' less,
      fun some_ => Nat.lt_of_le_of_lt less' (shorter some_)⟩
  | growMore _ _ one others =>
    obtain ⟨sum, less, -⟩ := one plain
    obtain ⟨sum', less', -⟩ := others plain
    exact ⟨sum'.trans sum, Nat.le_trans less' less, fun some_ => absurd some_ Bool.false_ne_true⟩
  | inside _ ih => exact ih plain

/-- With every bound that the height of the rule and the length of the text ask for, the reader
gives the same. The induction is on the bound; behind a character the length of the text pays for
the height of the rules that begin there. -/
theorem run_eq_run (measured : g.Measured fills height bound) (plain : a.IsPlain)
    (within : a.within fills height bound = true)
    (enough : a.heightBy fills height + bound * c.rest.length ≤ n)
    (enough' : a.heightBy fills height + bound * c.rest.length ≤ k) :
    g.run n left a c = g.run k left a c := by
  induction n generalizing a c left k with
  | zero =>
    have some_ := a.heightBy_pos fills height
    omega
  | succ n ih =>
    cases k with
    | zero =>
      have some_ := a.heightBy_pos fills height
      omega
    | succ k =>
      have room : bound * c.rest.length ≤ n ∧ bound * c.rest.length ≤ k := by
        have some_ := a.heightBy_pos fills height
        omega
      have later {b : Rule σ} {d : Cursor} (left : List Node) (plain : b.IsPlain)
          (within : b.within fills height bound = true) (low : b.heightBy fills height ≤ bound)
          (shorter : d.rest.length < c.rest.length) :
          g.run n left b d = g.run k left b d := by
        have paid := Nat.mul_le_mul_left bound (Nat.succ_le_of_lt shorter)
        rw [Nat.mul_succ] at paid
        exact ih plain within (by omega) (by omega)
      cases a with
      | done | never | sign | word | leaf | near | placed | longest | test | move => rfl
      | call name =>
        have low := measured.height_le name
        rw [Rule.heightBy] at enough enough'
        rw [run_call, run_call]
        exact ih (measured.plain name) (measured.within name) (by omega) (by omega)
      | seq a b =>
        simp only [Rule.within, Bool.and_eq_true, decide_eq_true_eq] at within
        obtain ⟨⟨withinA, withinB⟩, low⟩ := within
        rw [Rule.heightBy] at enough enough'
        have first : g.run n [] a c = g.run k [] a c :=
          ih plain.1 withinA (by split at enough <;> omega) (by split at enough' <;> omega)
        rw [run_seq, run_seq, first]
        cases found : g.run k [] a c with
        | none => rfl
        | some result =>
          obtain ⟨xs, d⟩ := result
          obtain ⟨-, less, shorter⟩ := length_of_run measured found plain.1
          have second : g.run n [] b d = g.run k [] b d := by
            by_cases some_ : a.takesSome fills = true
            · exact later [] plain.2 withinB low (shorter some_)
            · rw [if_neg some_] at enough enough'
              have most := Nat.mul_le_mul_left bound less
              exact ih plain.2 withinB (by omega) (by omega)
          simp only [second]
      | alt a b =>
        simp only [Rule.within, Bool.and_eq_true] at within
        rw [Rule.heightBy] at enough enough'
        have first : g.run n left a c = g.run k left a c :=
          ih plain.1 within.1 (by omega) (by omega)
        have second : g.run n left b c = g.run k left b c :=
          ih plain.2 within.2 (by omega) (by omega)
        rw [run_alt, run_alt, first, second]
      | many a =>
        simp only [Rule.within, Bool.and_eq_true, decide_eq_true_eq] at within
        rw [Rule.heightBy] at enough enough'
        have first : g.run n [] a c = g.run k [] a c := ih plain within.1 (by omega) (by omega)
        rw [run_many, run_many, first]
        cases found : g.run k [] a c with
        | none => rfl
        | some result =>
          obtain ⟨xs, d⟩ := result
          obtain ⟨sum, less, -⟩ := length_of_run measured found plain
          by_cases stays : d.place.offset = c.place.offset
          · simp only [if_pos stays]
          · have others : g.run n [] (.many a) d = g.run k [] (.many a) d := by
              refine later [] plain ?_ within.2 (by omega)
              simpa [Rule.within] using within
            simp only [if_neg stays, others]
      | node kind a =>
        rw [Rule.heightBy] at enough enough'
        have inner : g.run n [] a c = g.run k [] a c := ih plain within (by omega) (by omega)
        rw [run_node, run_node, inner]
      | field name a =>
        rw [Rule.heightBy] at enough enough'
        have inner : g.run n left a c = g.run k left a c := ih plain within (by omega) (by omega)
        rw [run_field, run_field, inner]
      | chain a step =>
        simp only [Rule.within, Bool.and_eq_true, decide_eq_true_eq] at within
        obtain ⟨⟨⟨withinA, withinStep⟩, some_⟩, low⟩ := within
        rw [Rule.heightBy] at enough enough'
        have first : g.run n [] a c = g.run k [] a c := ih plain.1 withinA (by omega) (by omega)
        rw [run_chain, run_chain, first]
        cases found : g.run k [] a c with
        | none => rfl
        | some result =>
          obtain ⟨xs, d⟩ := result
          obtain ⟨-, less, -⟩ := length_of_run measured found plain.1
          have most := Nat.mul_le_mul_left bound less
          have growth : (Rule.grow step).heightBy fills height = step.heightBy fills height + 1 :=
            rfl
          have fits : (Rule.grow step).within fills height bound = true := by
            simp [Rule.within, withinStep, some_, low]
          exact ih plain.2 fits (by omega) (by omega)
      | grow a =>
        simp only [Rule.within, Bool.and_eq_true, decide_eq_true_eq] at within
        obtain ⟨⟨withinA, some_⟩, low⟩ := within
        rw [Rule.heightBy] at enough enough'
        have first : g.run n left a c = g.run k left a c := ih plain withinA (by omega) (by omega)
        rw [run_grow, run_grow, first]
        cases found : g.run k left a c with
        | none => rfl
        | some result =>
          obtain ⟨xs, d⟩ := result
          obtain ⟨-, -, shorter⟩ := length_of_run measured found plain
          have fits : (Rule.grow a).within fills height bound = true := by
            simp [Rule.within, withinA, some_, low]
          exact later xs plain fits low (shorter some_)
      | wrap kind role a =>
        rw [Rule.heightBy] at enough enough'
        have inner : g.run n [] a c = g.run k [] a c := ih plain within (by omega) (by omega)
        rw [run_wrap, run_wrap, inner]
      | ahead a =>
        rw [Rule.heightBy] at enough enough'
        have inner : g.run n [] a c = g.run k [] a c := ih plain within (by omega) (by omega)
        rw [run_ahead, run_ahead, inner]
      | notAhead a =>
        rw [Rule.heightBy] at enough enough'
        have inner : g.run n [] a c = g.run k [] a c := ih plain within (by omega) (by omega)
        rw [run_notAhead, run_notAhead, inner]
      | inside a =>
        rw [Rule.heightBy] at enough enough'
        have room : a.heightBy fills height + bound * c.rest.length ≤ n ∧
            a.heightBy fills height + bound * c.rest.length ≤ k := by omega
        have inner : g.run n [] a { c with depth := c.depth + 1 } =
            g.run k [] a { c with depth := c.depth + 1 } := ih plain within room.1 room.2
        simp only [run, inner]

end Grammar

end CodeOutline.Syntax
