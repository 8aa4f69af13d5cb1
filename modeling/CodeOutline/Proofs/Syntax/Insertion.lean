import CodeOutline.Proofs.Syntax.Depth
import CodeOutline.Proofs.Syntax.Judging
import CodeOutline.Proofs.Syntax.Places

/-!
One text read twice, without a comment and with it. Where blanks and comments are passed over alike
and no token looks past the place of the comment, the reader goes the same way both times: every
node has its copy, and the comment is an extra child somewhere.
-/

set_option autoImplicit false

namespace CodeOutline.Syntax

/-- A text in two parts, and what may stand between them. -/
structure Insertion where
  front : List Char
  comment : List Char
  back : List Char

namespace Insertion

variable (i : Insertion)

def bare : List Char := i.front ++ i.back

def commented : List Char := i.front ++ (i.comment ++ i.back)

/-- A place and what follows it, without the comment and with it. -/
inductive Stands : Place → List Char → Place → List Char → Prop
  | before {passed rest : List Char} : i.front = passed ++ rest → rest ≠ [] →
      Stands (.behind passed) (rest ++ i.back) (.behind passed) (rest ++ (i.comment ++ i.back))
  | behind {passed rest : List Char} : i.back = passed ++ rest →
      Stands (.behind (i.front ++ passed)) rest (.behind (i.front ++ (i.comment ++ passed))) rest

/-- Cursors at the same place. -/
structure Cursors (c c' : Cursor) : Prop where
  stands : i.Stands c.place c.rest c'.place c'.rest
  depth : c.depth = c'.depth
  indents : c.indents = c'.indents

/-- A node and its copy, but for what stands in them. -/
structure Alike (n n' : Node) : Prop where
  kind : n.kind = n'.kind
  isNamed : n.isNamed = n'.isNamed
  isExtra : n.isExtra = n'.isExtra
  field : n.field = n'.field
  start : i.Stands n.start n.tail n'.start n'.tail
  stop : ∃ rest rest', i.Stands n.stop rest n'.stop rest'

structure IsComment (x : Node) : Prop where
  kind : x.kind = "comment"
  isExtra : x.isExtra = true
  field : x.field = none
  start : x.start.offset = i.front.length
  stop : x.stop.offset = i.front.length + i.comment.length

inductive Copies : List Node → List Node → Prop
  | nil : Copies [] []
  | cons {n n' : Node} {ns ns' : List Node} : i.Alike n n' → Copies n.children n'.children →
      Copies ns ns' → Copies (n :: ns) (n' :: ns')
  | comment {x n : Node} {ns ns' : List Node} : i.IsComment x → Copies (n :: ns) ns' →
      Copies (n :: ns) (x :: ns')

inductive Agree : Option (List Node × Cursor) → Option (List Node × Cursor) → Prop
  | fails : Agree none none
  | reads {xs xs' : List Node} {c c' : Cursor} : i.Copies xs xs' → i.Cursors c c' →
      Agree (some (xs, c)) (some (xs', c'))

/-- So many characters from that many before the place of the comment on, without the comment and
with it: they end before the place, or the comment is among them. -/
def Lengths (before n n' : Nat) : Prop :=
  n < before ∧ n' = n ∨ before ≤ n ∧ n' = n + i.comment.length

/-- In front of the place the scan fits both times or never, and takes the same characters, with all
of the comment or none of it. -/
def Keeps (a : Scan) : Prop :=
  ∀ passed rest, i.front = passed ++ rest → rest ≠ [] →
    (a (rest ++ i.back) = none ∧ a (rest ++ (i.comment ++ i.back)) = none) ∨
      ∃ n n', a (rest ++ i.back) = some n ∧ a (rest ++ (i.comment ++ i.back)) = some n' ∧
        i.Lengths rest.length n n'

end Insertion

variable {i : Insertion}

/-! ## Cursors -/

theorem Cursor.place_skip (c : Cursor) (n : Nat) :
    (c.skip n).place = (c.rest.take n).foldl Place.next c.place := by
  induction n generalizing c with
  | zero => rfl
  | succ n ih =>
    rw [skip]
    split
    · next empty => rw [empty]; rfl
    · next d ds rest =>
      rw [ih, rest, List.take_succ_cons]
      rfl

theorem Cursor.other_skip (c : Cursor) (n : Nat) :
    (c.skip n).depth = c.depth ∧ (c.skip n).indents = c.indents := by
  induction n generalizing c with
  | zero => exact ⟨rfl, rfl⟩
  | succ n ih =>
    rw [skip]
    split
    · exact ⟨rfl, rfl⟩
    · exact ih _

namespace Insertion

section Cursors

variable {c c' d d' : Cursor}

theorem Cursors.offset_eq_iff (here : i.Cursors c c') (there : i.Cursors d d') :
    d.place.offset = c.place.offset ↔ d'.place.offset = c'.place.offset := by
  obtain ⟨stands, -, -⟩ := here
  obtain ⟨stands', -, -⟩ := there
  generalize c.place = p, c.rest = r, c'.place = p', c'.rest = r' at stands
  generalize d.place = q, d.rest = s, d'.place = q', d'.rest = s' at stands'
  cases stands with
  | before parts some_ =>
    cases stands' with
    | before parts' some' => simp
    | behind parts' =>
      have whole := congrArg List.length parts
      have some_ := List.length_pos_iff.2 some_
      simp only [Place.behind_offset, List.length_append] at whole ⊢
      omega
  | behind parts =>
    cases stands' with
    | before parts' some' =>
      have whole := congrArg List.length parts'
      have some_ := List.length_pos_iff.2 some'
      simp only [Place.behind_offset, List.length_append] at whole ⊢
      omega
    | behind parts' =>
      simp only [Place.behind_offset, List.length_append]
      omega

theorem stands_foldl {passed more rest : List Char} (parts : i.back = passed ++ (more ++ rest)) :
    i.Stands (more.foldl Place.next (.behind (i.front ++ passed))) rest
      (more.foldl Place.next (.behind (i.front ++ (i.comment ++ passed)))) rest := by
  rw [← Place.behind_append, ← Place.behind_append, List.append_assoc, List.append_assoc,
    List.append_assoc]
  exact .behind (by rw [parts, List.append_assoc])

theorem stands_take {passed rest : List Char} {n n' : Nat} (parts : i.front = passed ++ rest)
    (lengths : i.Lengths rest.length n n') :
    i.Stands (((rest ++ i.back).take n).foldl Place.next (.behind passed))
      ((rest ++ i.back).drop n)
      (((rest ++ (i.comment ++ i.back)).take n').foldl Place.next (.behind passed))
      ((rest ++ (i.comment ++ i.back)).drop n') := by
  rcases lengths with ⟨inside, rfl⟩ | ⟨across, rfl⟩
  · have less := Nat.le_of_lt inside
    rw [List.take_append_of_le_length less, List.take_append_of_le_length less,
      List.drop_append_of_le_length less, List.drop_append_of_le_length less,
      ← Place.behind_append]
    refine .before ?_ ?_
    · rw [List.append_assoc, List.take_append_drop, parts]
    · rw [Ne, List.drop_eq_nil_iff]
      omega
  · obtain ⟨m, rfl⟩ := Nat.exists_eq_add_of_le across
    have bare : (rest ++ i.back).take (rest.length + m) = rest ++ i.back.take m :=
      List.take_length_add_append m
    have commented : (rest ++ (i.comment ++ i.back)).take
        (rest.length + m + i.comment.length) = rest ++ (i.comment ++ i.back.take m) := by
      rw [Nat.add_assoc, Nat.add_comm m, List.take_length_add_append, List.take_length_add_append]
    have behind : (rest ++ i.back).drop (rest.length + m) = i.back.drop m :=
      List.drop_length_add_append m
    have behind' : (rest ++ (i.comment ++ i.back)).drop
        (rest.length + m + i.comment.length) = i.back.drop m := by
      rw [Nat.add_assoc, Nat.add_comm m, List.drop_length_add_append, List.drop_length_add_append]
    have split : i.back = [] ++ (i.back.take m ++ i.back.drop m) := by simp
    have stands := stands_foldl split
    rw [bare, commented, behind, behind', List.foldl_append, List.foldl_append, List.foldl_append,
      ← Place.behind_append passed rest, ← parts, ← Place.behind_append i.front i.comment]
    simpa using stands

theorem Cursors.skip (here : i.Cursors c c') {n n' : Nat}
    (stands : i.Stands ((c.rest.take n).foldl Place.next c.place) (c.rest.drop n)
      ((c'.rest.take n').foldl Place.next c'.place) (c'.rest.drop n')) :
    i.Cursors (c.skip n) (c'.skip n') := by
  refine ⟨?_, ?_, ?_⟩
  · rwa [c.place_skip, c'.place_skip, c.rest_skip, c'.rest_skip]
  · rw [(c.other_skip n).1, (c'.other_skip n').1, here.depth]
  · rw [(c.other_skip n).2, (c'.other_skip n').2, here.indents]

theorem Cursors.cases (here : i.Cursors c c') :
    (∃ passed rest, i.front = passed ++ rest ∧ rest ≠ [] ∧ c.place = .behind passed ∧
      c.rest = rest ++ i.back ∧ c'.place = .behind passed ∧
      c'.rest = rest ++ (i.comment ++ i.back)) ∨
    ∃ passed, i.back = passed ++ c.rest ∧ c.place = .behind (i.front ++ passed) ∧
      c'.place = .behind (i.front ++ (i.comment ++ passed)) ∧ c'.rest = c.rest := by
  obtain ⟨stands, -, -⟩ := here
  generalize c.place = p, c.rest = r, c'.place = p', c'.rest = r' at stands
  cases stands with
  | before parts some_ => exact .inl ⟨_, _, parts, some_, rfl, rfl, rfl, rfl⟩
  | behind parts => exact .inr ⟨_, parts, rfl, rfl, rfl⟩

theorem Cursors.scan {a : Scan} (here : i.Cursors c c') (keeps : i.Keeps a) :
    (a c.rest = none ∧ a c'.rest = none) ∨
      ∃ n n', a c.rest = some n ∧ a c'.rest = some n' ∧ i.Cursors (c.skip n) (c'.skip n') := by
  have skip {n n' : Nat} := @Cursors.skip i c c' here n n'
  obtain ⟨stands, -, -⟩ := here
  generalize c.place = p, c.rest = r, c'.place = p', c'.rest = r' at stands skip
  cases stands with
  | @before passed rest parts some_ =>
    rcases keeps _ _ parts some_ with fails | ⟨n, n', one, other, lengths⟩
    · exact .inl fails
    · exact .inr ⟨n, n', one, other, skip (stands_take parts lengths)⟩
  | @behind passed rest parts =>
    cases found : a r with
    | none => exact .inl ⟨rfl, rfl⟩
    | some n =>
      refine .inr ⟨n, n, rfl, rfl, skip (stands_foldl ?_)⟩
      rw [List.take_append_drop, parts]

end Cursors

theorem Keeps.alt {a b : Scan} (first : i.Keeps a) (second : i.Keeps b) :
    i.Keeps (Scan.alt a b) := by
  intro passed rest parts some_
  rcases first passed rest parts some_ with ⟨one, other⟩ | ⟨n, n', one, other, lengths⟩
  · simp only [Scan.alt, one, other, Option.orElse_none]
    exact second passed rest parts some_
  · simp only [Scan.alt, one, other, Option.orElse_some]
    exact .inr ⟨n, n', rfl, rfl, lengths⟩

/-! ## Copies -/

section Copies

variable {xs xs' ys ys' : List Node} {m n n' : Node}

theorem Copies.append (first : i.Copies xs xs') (second : i.Copies ys ys') :
    i.Copies (xs ++ ys) (xs' ++ ys') := by
  induction first with
  | nil => exact second
  | cons alike kids _ _ ih => exact .cons alike kids ih
  | comment isComment _ ih => exact .comment isComment ih

theorem Copies.singleton (alike : i.Alike n n') (kids : i.Copies n.children n'.children) :
    i.Copies [n] [n'] := .cons alike kids .nil

theorem Copies.getLast? (copies : i.Copies xs xs') :
    (xs = [] ∧ xs' = []) ∨
      ∃ n n', xs.getLast? = some n ∧ xs'.getLast? = some n' ∧ i.Alike n n' := by
  induction copies with
  | nil => exact .inl ⟨rfl, rfl⟩
  | cons alike _ _ _ ih =>
    rcases ih with ⟨rfl, rfl⟩ | ⟨m, m', last, last', ends⟩
    · exact .inr ⟨_, _, rfl, rfl, alike⟩
    · exact .inr ⟨m, m', by rw [List.getLast?_cons, last]; rfl,
        by rw [List.getLast?_cons, last']; rfl, ends⟩
  | comment _ _ ih =>
    rcases ih with ⟨nothing, -⟩ | ⟨m, m', last, last', ends⟩
    · cases nothing
    · exact .inr ⟨m, m', last, by rw [List.getLast?_cons, last']; rfl, ends⟩

theorem Copies.assignField (copies : i.Copies xs xs') (role : String) :
    i.Copies (assignField role xs) (assignField role xs') := by
  induction copies with
  | nil => exact .nil
  | @cons n n' ns ns' alike kids _ _ ih =>
    obtain ⟨kind, isNamed, isExtra, field, start, stop⟩ := alike
    rw [Syntax.assignField, List.map_cons, Syntax.assignField, List.map_cons]
    by_cases settled : (n.isExtra || n.field.isSome) = true
    · have settled' := settled
      rw [isExtra, field] at settled'
      rw [if_pos settled, if_pos settled']
      exact .cons ⟨kind, isNamed, isExtra, field, start, stop⟩ kids ih
    · have free := settled
      rw [isExtra, field] at free
      rw [if_neg settled, if_neg free]
      exact .cons ⟨kind, isNamed, isExtra, rfl, start, stop⟩ kids ih
  | @comment x n ns ns' isComment _ ih =>
    have same : Syntax.assignField role (x :: ns') = x :: Syntax.assignField role ns' := by
      rw [Syntax.assignField, List.map_cons, isComment.isExtra]
      rfl
    rw [same]
    exact .comment isComment ih

end Copies

end Insertion

/-! ## Tokens that end at a blank -/

namespace Scan.Stays

theorem word {σ : Type} (g : Grammar σ) (folds : g.foldsCase = false) {s : String}
    (letters : s.toList.all (fun c => !blank c) = true) :
    ∀ scan ∈ g.token? (.word s), scan.Stays := by
  rintro scan ⟨⟩
  have drop (w cs : List Char) : g.dropWord? w cs = Text.dropStart? w cs := by
    induction w generalizing cs with
    | nil => rfl
    | cons a w ih =>
      cases cs with
      | nil => rfl
      | cons b cs => simp [Grammar.dropWord?, Text.dropStart?, folds, ih]
  intro cs ends
  simp only [drop]
  rcases dropStart? letters ends with fails | ⟨rest, some_, whole, fits⟩
  · exact .inl fun more => by simp [fails]
  · obtain ⟨d, ds, rfl⟩ := List.exists_cons_of_ne_nil some_
    by_cases inWord : g.isWordChar d = true
    · exact .inl fun more => by simp [fits, inWord]
    · refine .inr ⟨s.length, ?_, fun more => by simp [fits, inWord]⟩
      rw [whole, List.length_append, String.length_toList, List.length_cons]
      omega

theorem keeps {a : Scan} (stays : a.Stays) (front : EndsBlank i.front) : i.Keeps a := by
  intro passed rest parts some_
  rw [parts] at front
  rcases stays rest (front.of_append some_) with fails | ⟨n, less, fits⟩
  · exact .inl ⟨fails _, fails _⟩
  · exact .inr ⟨n, n, fits _, fits _, .inl ⟨less, rfl⟩⟩

end Scan.Stays

/-! ## Nodes around others -/

section Enclose

variable {c c' stop stop' : Cursor} {kind : String} {n : Node} {xs xs' : List Node}

theorem Cursor.enclose_extra (extra : n.isExtra = true) :
    c.enclose stop kind (n :: xs) = n :: c.enclose stop kind xs := by
  have split : splitExtras (n :: xs) = (n :: (splitExtras xs).1, (splitExtras xs).2) := by
    rw [splitExtras, List.takeWhile_cons_of_pos extra, List.dropWhile_cons_of_pos extra]
    rfl
  unfold enclose
  rw [split]
  dsimp only
  split <;> rfl

theorem Cursor.enclose_proper (proper : n.isExtra = false) {last : Node}
    (ends : (n :: xs).getLast? = some last) :
    c.enclose stop kind (n :: xs) =
      [{ kind, start := n.start, stop := last.stop, tail := n.tail, children := n :: xs }] := by
  have split : splitExtras (n :: xs) = ([], n :: xs) := by
    rw [splitExtras, List.takeWhile_cons_of_neg (by simp [proper]),
      List.dropWhile_cons_of_neg (by simp [proper])]
  unfold enclose
  rw [split]
  dsimp only
  rw [ends]
  rfl

theorem Insertion.Copies.enclose (here : i.Cursors c c') (there : i.Cursors stop stop')
    (copies : i.Copies xs xs') :
    i.Copies (c.enclose stop kind xs) (c'.enclose stop' kind xs') := by
  induction copies with
  | nil =>
    exact .singleton ⟨rfl, rfl, rfl, rfl, here.stands, _, _, there.stands⟩ .nil
  | @cons n n' ns ns' alike kids rest _ ih =>
    cases extra : n.isExtra with
    | true =>
      have extra' := alike.isExtra.symm.trans extra
      rw [Cursor.enclose_extra extra, Cursor.enclose_extra extra']
      exact .cons alike kids ih
    | false =>
      have proper' := alike.isExtra.symm.trans extra
      rcases (Copies.cons alike kids rest).getLast? with ⟨nothing, -⟩ | ⟨m, m', last, last', ends⟩
      · cases nothing
      · rw [Cursor.enclose_proper extra last, Cursor.enclose_proper proper' last']
        exact .singleton ⟨rfl, rfl, rfl, rfl, alike.start, ends.stop⟩ (.cons alike kids rest)
  | @comment x n ns ns' isComment _ ih =>
    rw [Cursor.enclose_extra isComment.isExtra]
    cases around : c.enclose stop kind (n :: ns) with
    | nil =>
      unfold Cursor.enclose at around
      dsimp only at around
      split at around <;> simp at around
    | cons m ms =>
      rw [around] at ih
      exact .comment isComment ih

end Enclose

/-! ## The reader -/

variable {σ : Type}

/-- The tokens of the rule are read alike without the comment and with it, and its conditions hold
alike; none of its parts moves the cursor otherwise. -/
def Rule.Keeps (g : Grammar σ) (i : Insertion) : Rule σ → Prop
  | .seq a b | .alt a b | .chain a b => a.Keeps g i ∧ b.Keeps g i
  | .many a | .node _ a | .field _ a | .grow a | .wrap _ _ a | .ahead a | .notAhead a | .inside a =>
    a.Keeps g i
  | .sign s => ∀ scan ∈ g.token? (.sign s), i.Keeps scan
  | .word s => ∀ scan ∈ g.token? (.word s), i.Keeps scan
  | .leaf _ scan => i.Keeps scan
  | .test p => ∀ c c', i.Cursors c c' → p c (g.lead c).2 = p c' (g.lead c').2
  | .near _ _ | .placed _ _ | .longest _ _ | .move _ => False
  | _ => True

structure Insertion.Leads (i : Insertion) (g : Grammar σ) : Prop where
  cursors : ∀ {c c'}, i.Cursors c c' → i.Cursors (g.lead c).2 (g.lead c').2
  copies : ∀ {c c' n n'}, i.Cursors c c' → i.Alike n n' → i.Copies n.children n'.children →
    i.Copies ((g.lead c).1 ++ [n]) ((g.lead c').1 ++ [n'])

namespace Grammar

variable {g : Grammar σ} {n : Nat} {a : Rule σ} {c c' : Cursor} {left left' : List Node}

theorem agree_take (leads : i.Leads g) (here : i.Cursors c c') {scan : Scan} (keeps : i.Keeps scan)
    (kind : String) (isNamed : Bool) :
    i.Agree ((scan (g.lead c).2.rest).map (take (g.lead c).1 (g.lead c).2 kind isNamed))
      ((scan (g.lead c').2.rest).map (take (g.lead c').1 (g.lead c').2 kind isNamed)) := by
  have led := leads.cursors here
  rcases led.scan keeps with ⟨one, other⟩ | ⟨n, n', one, other, behind⟩
  · rw [one, other]
    exact .fails
  · rw [one, other]
    refine .reads (leads.copies here ⟨rfl, rfl, rfl, rfl, led.stands, ?_⟩ .nil) behind
    exact ⟨_, _, behind.stands⟩

/-- The reader goes the same way without the comment and with it. The induction is on the bound of
the depth. -/
theorem agree_run (leads : i.Leads g) (rules : ∀ name, (g.rule name).Keeps g i)
    (keeps : a.Keeps g i) (here : i.Cursors c c') (copies : i.Copies left left') :
    i.Agree (g.run n left a c) (g.run n left' a c') := by
  induction n generalizing a c c' left left' with
  | zero => exact .fails
  | succ n ih =>
    cases a with
    | done => exact .reads .nil here
    | never => exact .fails
    | call name => exact ih (rules name) here copies
    | seq a b =>
      have first : i.Agree (g.run n [] a c) (g.run n [] a c') := ih keeps.1 here .nil
      rw [run_seq, run_seq]
      generalize g.run n [] a c = r, g.run n [] a c' = r' at first ⊢
      cases first with
      | fails => exact .fails
      | @reads xs xs' d d' ofFirst between =>
        have second := ih keeps.2 between .nil
        dsimp only
        generalize g.run n [] b d = r, g.run n [] b d' = r' at second ⊢
        cases second with
        | fails => exact .fails
        | reads ofSecond behind => exact .reads (ofFirst.append ofSecond) behind
    | alt a b =>
      have first := ih keeps.1 here copies
      rw [run_alt, run_alt]
      generalize g.run n left a c = r, g.run n left' a c' = r' at first ⊢
      cases first with
      | fails => exact ih keeps.2 here copies
      | reads nodes behind => exact .reads nodes behind
    | many a =>
      have first : i.Agree (g.run n [] a c) (g.run n [] a c') := ih keeps here .nil
      rw [run_many, run_many]
      generalize g.run n [] a c = r, g.run n [] a c' = r' at first ⊢
      cases first with
      | fails => exact .reads .nil here
      | @reads xs xs' d d' ofFirst between =>
        have stays := here.offset_eq_iff between
        have others : i.Agree (g.run n [] (.many a) d) (g.run n [] (.many a) d') :=
          ih keeps between .nil
        dsimp only
        by_cases still : d.place.offset = c.place.offset
        · rw [if_pos still, if_pos (stays.1 still)]
          exact .reads .nil here
        · rw [if_neg still, if_neg (mt stays.2 still)]
          generalize g.run n [] (.many a) d = r, g.run n [] (.many a) d' = r' at others ⊢
          cases others with
          | fails => exact .reads ofFirst between
          | reads ofOthers behind => exact .reads (ofFirst.append ofOthers) behind
    | sign s =>
      have step (left : List Node) (c : Cursor) : g.run (n + 1) left (.sign s) c =
          ((Text.dropStart? s.toList (g.lead c).2.rest).map (fun _ => s.length)).map
            (take (g.lead c).1 (g.lead c).2 s false) := by
        rw [run_sign]
        cases Text.dropStart? s.toList (g.lead c).2.rest <;> rfl
      rw [step, step]
      exact agree_take leads here (keeps _ rfl) s false
    | word s =>
      obtain ⟨scan, token⟩ : ∃ scan, g.token? (.word s) = some scan := ⟨_, rfl⟩
      have step (left : List Node) (c : Cursor) : g.run (n + 1) left (.word s) c =
          (scan (g.lead c).2.rest).map (take (g.lead c).1 (g.lead c).2 s false) := by
        obtain rfl := Option.some.inj token
        rw [run_word]
        split
        · next d ds found =>
          by_cases inWord : g.isWordChar d = true <;> simp [found, inWord]
        · next found => simp [found]
        · next missing => simp [missing]
      rw [step, step]
      exact agree_take leads here (keeps scan token) s false
    | leaf kind scan =>
      have step (left : List Node) (c : Cursor) : g.run (n + 1) left (.leaf kind scan) c =
          (scan (g.lead c).2.rest).map (take (g.lead c).1 (g.lead c).2 kind true) := by
        rw [run_leaf]
        cases scan (g.lead c).2.rest <;> rfl
      rw [step, step]
      exact agree_take leads here keeps kind true
    | near | placed | longest | move => exact keeps.elim
    | node kind a =>
      have inner : i.Agree (g.run n [] a c) (g.run n [] a c') := ih keeps here .nil
      rw [run_node, run_node]
      generalize g.run n [] a c = r, g.run n [] a c' = r' at inner ⊢
      cases inner with
      | fails => exact .fails
      | reads nodes behind => exact .reads (.enclose here behind nodes) behind
    | field name a =>
      have inner : i.Agree (g.run n left a c) (g.run n left' a c') := ih keeps here copies
      rw [run_field, run_field]
      generalize g.run n left a c = r, g.run n left' a c' = r' at inner ⊢
      cases inner with
      | fails => exact .fails
      | reads nodes behind => exact .reads (nodes.assignField name) behind
    | chain a step =>
      have first := ih keeps.1 here .nil
      rw [run_chain, run_chain]
      generalize g.run n [] a c = r, g.run n [] a c' = r' at first ⊢
      cases first with
      | fails => exact .fails
      | reads ofBase between => exact ih keeps.2 between ofBase
    | grow a =>
      have first : i.Agree (g.run n left a c) (g.run n left' a c') := ih keeps here copies
      rw [run_grow, run_grow]
      generalize g.run n left a c = r, g.run n left' a c' = r' at first ⊢
      cases first with
      | fails => exact .reads copies here
      | reads ofOne between => exact ih keeps between ofOne
    | wrap kind role a =>
      have inner : i.Agree (g.run n [] a c) (g.run n [] a c') := ih keeps here .nil
      rw [run_wrap, run_wrap]
      generalize g.run n [] a c = r, g.run n [] a c' = r' at inner ⊢
      cases inner with
      | fails => exact .fails
      | reads nodes behind =>
        exact .reads (.enclose here behind ((copies.assignField role).append nodes)) behind
    | ahead a =>
      have inner : i.Agree (g.run n [] a c) (g.run n [] a c') := ih keeps here .nil
      rw [run_ahead, run_ahead]
      generalize g.run n [] a c = r, g.run n [] a c' = r' at inner ⊢
      cases inner with
      | fails => exact .fails
      | reads => exact .reads .nil here
    | notAhead a =>
      have inner : i.Agree (g.run n [] a c) (g.run n [] a c') := ih keeps here .nil
      rw [run_notAhead, run_notAhead]
      generalize g.run n [] a c = r, g.run n [] a c' = r' at inner ⊢
      cases inner with
      | fails => exact .reads .nil here
      | reads => exact .fails
    | test p =>
      have same := keeps c c' here
      simp only [run, same]
      split
      · exact .reads .nil here
      · exact .fails
    | inside a =>
      have deeper : i.Cursors { c with depth := c.depth + 1 } { c' with depth := c'.depth + 1 } :=
        ⟨here.stands, congrArg (· + 1) here.depth, here.indents⟩
      have inner : i.Agree (g.run n [] a { c with depth := c.depth + 1 })
          (g.run n [] a { c' with depth := c'.depth + 1 }) := ih keeps deeper .nil
      simp only [run]
      generalize g.run n [] a { c with depth := c.depth + 1 } = r,
        g.run n [] a { c' with depth := c'.depth + 1 } = r' at inner ⊢
      cases inner with
      | fails => exact .fails
      | reads nodes behind => exact .reads nodes ⟨behind.stands, here.depth, behind.indents⟩

end Grammar

/-! ## Blanks and comments -/

theorem Cursor.skip_skip (c : Cursor) (n m : Nat) : (c.skip n).skip m = c.skip (n + m) := by
  induction n generalizing c with
  | zero => rw [Nat.zero_add]; rfl
  | succ n ih =>
    rw [Nat.succ_add, skip, skip]
    split
    · next empty =>
      cases m with
      | zero => rfl
      | succ m => rw [skip, empty]
    · exact ih _

namespace Grammar

variable {g : Grammar σ} {c c' d : Cursor} {xs : List Node}

inductive Passes (g : Grammar σ) : Cursor → List Node → Cursor → Prop
  | stop {c : Cursor} : (∀ n kind, g.between c.depth c.rest ≠ some (n + 1, kind)) → Passes g c [] c
  | piece {c d : Cursor} {n : Nat} {kind : Option String} {xs : List Node} :
      g.between c.depth c.rest = some (n + 1, kind) → Passes g (c.skip (n + 1)) xs d →
      Passes g c (c.passed (n + 1) kind ++ xs) d

theorem Passes.of_ne_zero {n : Nat} {kind : Option String}
    (found : g.between c.depth c.rest = some (n, kind)) (some_ : n ≠ 0)
    (later : g.Passes (c.skip n) xs d) : g.Passes c (c.passed n kind ++ xs) d := by
  obtain ⟨m, rfl⟩ := Nat.exists_eq_succ_of_ne_zero some_
  exact .piece found later

theorem passes_pass (nothing : ∀ depth, g.between depth [] = none) {fuel : List Char}
    (enough : c.rest.length ≤ fuel.length) : g.Passes c (g.pass fuel c).1 (g.pass fuel c).2 := by
  induction fuel generalizing c with
  | nil =>
    refine .stop fun n kind => ?_
    rw [List.length_eq_zero_iff.1 (Nat.le_zero.1 enough), nothing]
    simp
  | cons _ fuel ih =>
    rw [pass]
    split
    · next none_ => exact .stop fun n kind => by simp [none_]
    · next zero => exact .stop fun n kind => by simp [zero]
    · next length kind filled found =>
      obtain ⟨n, rfl⟩ : ∃ n, length = n + 1 := Nat.exists_eq_succ_of_ne_zero filled
      have later : g.Passes (c.skip (n + 1)) (g.pass fuel (c.skip (n + 1))).1
          (g.pass fuel (c.skip (n + 1))).2 := by
        refine ih ?_
        rw [Cursor.rest_skip, List.length_drop]
        rw [List.length_cons] at enough
        omega
      have passes := Passes.piece found later
      cases kind <;> exact passes

theorem passes_lead (nothing : ∀ depth, g.between depth [] = none) (c : Cursor) :
    g.Passes c (g.lead c).1 (g.lead c).2 := by
  unfold lead
  split
  · next none_ => exact .stop fun n kind => by simp [none_]
  · exact passes_pass nothing (Nat.le_refl _)

theorem Passes.unique {d' : Cursor} {xs' : List Node} (passes : g.Passes c xs d)
    (passes' : g.Passes c xs' d') : xs = xs' ∧ d = d' := by
  induction passes generalizing xs' with
  | stop ended =>
    cases passes' with
    | stop => exact ⟨rfl, rfl⟩
    | piece found => exact absurd found (ended _ _)
  | piece found _ ih =>
    cases passes' with
    | stop ended => exact absurd found (ended _ _)
    | piece found' later =>
      obtain ⟨same, rfl⟩ := Prod.mk.inj (Option.some.inj (found.symm.trans found'))
      obtain rfl := Nat.succ.inj same
      obtain ⟨rfl, rfl⟩ := ih later
      exact ⟨rfl, rfl⟩

theorem Passes.ended (passes : g.Passes c xs d) (n : Nat) (kind : Option String) :
    g.between d.depth d.rest ≠ some (n + 1, kind) := by
  induction passes with
  | stop ended => exact ended n kind
  | piece _ _ ih => exact ih

end Grammar

/-- A blank stands behind the comment, which is one for the grammar, and the comments of the grammar
are read alike in front of the place. -/
structure Insertion.Spaced (i : Insertion) (g : Grammar σ)
    (comments : Nat → List (String × Scan)) : Prop where
  between : ∀ depth, g.between depth = Scan.between (comments depth)
  back : ∃ b cs, i.back = b :: cs ∧ Scan.blank b = true
  filled : i.comment ≠ []
  comment : ∀ depth,
    Scan.between (comments depth) (i.comment ++ i.back) = some (i.comment.length, some "comment")
  scans : ∀ depth, ∀ comment ∈ comments depth, i.Keeps comment.2

theorem Insertion.keeps_findSome? {list : List (String × Scan)}
    (keeps : ∀ comment ∈ list, i.Keeps comment.2) {passed rest : List Char}
    (parts : i.front = passed ++ rest) (some_ : rest ≠ []) :
    let found (cs : List Char) : Option (Nat × Option String) :=
      list.findSome? (fun comment => (comment.2 cs).map (fun n => (n, some comment.1)))
    (found (rest ++ i.back) = none ∧ found (rest ++ (i.comment ++ i.back)) = none) ∨
      ∃ n n' kind, found (rest ++ i.back) = some (n, kind) ∧
        found (rest ++ (i.comment ++ i.back)) = some (n', kind) ∧
        i.Lengths rest.length n n' := by
  induction list with
  | nil => exact .inl ⟨rfl, rfl⟩
  | cons first list ih =>
    rw [List.forall_mem_cons] at keeps
    dsimp only
    rcases keeps.1 passed rest parts some_ with ⟨one, other⟩ | ⟨n, n', one, other, lengths⟩
    · simp only [List.findSome?_cons, one, other, Option.map_none]
      exact ih keeps.2
    · refine .inr ⟨n, n', first.1, ?_, ?_, lengths⟩
      · rw [List.findSome?_cons, one]
        rfl
      · rw [List.findSome?_cons, other]
        rfl

namespace Insertion.Spaced

variable {g : Grammar σ} {comments : Nat → List (String × Scan)} (spaced : i.Spaced g comments)

include spaced

theorem nothing (depth : Nat) : g.between depth [] = none := by
  rw [spaced.between]
  rfl

theorem stopsAt_blank : Scan.StopsAt Scan.blank (i.comment ++ i.back) := by
  intro c head
  cases text : i.comment ++ i.back with
  | nil =>
    rw [text] at head
    cases head
  | cons d ds =>
    have found := spaced.comment 0
    rw [text] at head found
    obtain rfl := Option.some.inj head
    rw [Scan.between] at found
    split at found
    · simp at found
    · next other => simpa using other

/-- What stands in front of the place is passed over alike, but blanks up to the place go on behind
it when the comment is missing. -/
theorem between_front {passed rest : List Char} (parts : i.front = passed ++ rest)
    (some_ : rest ≠ []) (depth : Nat) :
    (g.between depth (rest ++ i.back) = none ∧
        g.between depth (rest ++ (i.comment ++ i.back)) = none) ∨
      (∃ n n' kind, g.between depth (rest ++ i.back) = some (n, kind) ∧
        g.between depth (rest ++ (i.comment ++ i.back)) = some (n', kind) ∧
        i.Lengths rest.length n n') ∨
      ∃ m, g.between depth (rest ++ i.back) = some (rest.length + (m + 1), none) ∧
        g.between depth (rest ++ (i.comment ++ i.back)) = some (rest.length, none) ∧
        g.between depth i.back = some (m + 1, none) := by
  have blanks (c : Char) (cs : List Char) (blank : Scan.blank c = true) :
      Scan.between (comments depth) (c :: cs) =
        some (((c :: cs).takeWhile Scan.blank).length, none) := by
    rw [Scan.between, if_pos blank]
  rw [spaced.between]
  obtain ⟨r, rs, rfl⟩ := List.exists_cons_of_ne_nil some_
  by_cases blank : Scan.blank r = true
  · right
    rw [List.cons_append, List.cons_append, blanks r _ blank, blanks r _ blank, ← List.cons_append,
      ← List.cons_append]
    by_cases all : ∀ c ∈ r :: rs, Scan.blank c = true
    · right
      obtain ⟨b, cs, back, blankB⟩ := spaced.back
      refine ⟨(cs.takeWhile Scan.blank).length, ?_, ?_, ?_⟩
      · rw [List.takeWhile_append_of_pos all, back, List.takeWhile_cons_of_pos blankB,
          List.length_append, List.length_cons, List.length_cons]
      · rw [Scan.takeWhile_append_of_stopsAt all spaced.stopsAt_blank]
      · rw [back, blanks b cs blankB, List.takeWhile_cons_of_pos blankB, List.length_cons]
    · left
      obtain ⟨xs, z, ys, whole, blankXs, other⟩ : ∃ xs z ys, r :: rs = xs ++ z :: ys ∧
          (∀ c ∈ xs, Scan.blank c = true) ∧ Scan.blank z = false := by
        have split := List.takeWhile_append_dropWhile (p := Scan.blank) (l := r :: rs)
        have blankXs := List.all_eq_true.1 (List.all_takeWhile (p := Scan.blank) (l := r :: rs))
        have head := List.head?_dropWhile_not Scan.blank (r :: rs)
        cases behind : (r :: rs).dropWhile Scan.blank with
        | nil =>
          rw [behind, List.append_nil] at split
          rw [split] at blankXs
          exact absurd blankXs all
        | cons z ys =>
          rw [behind] at split head
          exact ⟨_, z, ys, split.symm, blankXs, by simpa using head⟩
      have cut (more : List Char) : (r :: rs ++ more).takeWhile Scan.blank = xs := by
        rw [whole, List.append_assoc, List.cons_append]
        exact Scan.takeWhile_append_of_stopsAt blankXs (Scan.stopsAt_cons other _)
      refine ⟨xs.length, xs.length, none, by rw [cut], by rw [cut], .inl ⟨?_, rfl⟩⟩
      rw [whole, List.length_append, List.length_cons]
      omega
  · have scans (cs : List Char) : Scan.between (comments depth) (r :: cs) =
        (comments depth).findSome?
          (fun comment => (comment.2 (r :: cs)).map (fun n => (n, some comment.1))) := by
      rw [Scan.between, if_neg blank]
    rw [List.cons_append, List.cons_append, scans, scans]
    rcases keeps_findSome? (spaced.scans depth) parts some_ with fails | reads
    · exact .inl fails
    · exact .inr (.inl reads)

omit spaced in
theorem copies_passed {c c' : Cursor} {n n' : Nat} (here : i.Cursors c c')
    (behind : i.Cursors (c.skip n) (c'.skip n')) (kind : Option String) :
    i.Copies (c.passed n kind) (c'.passed n' kind) := by
  cases kind with
  | none => exact .nil
  | some kind =>
    exact .singleton ⟨rfl, rfl, rfl, rfl, here.stands, _, _, behind.stands⟩ .nil

/-- Blanks and comments are passed over both times to the same place. The induction is on the pieces
without the comment; where blanks go on behind its place, the comment parts them. -/
theorem passes {c c' d : Cursor} {xs : List Node} (passes : g.Passes c xs d)
    (here : i.Cursors c c') :
    ∃ xs' d', g.Passes c' xs' d' ∧ i.Cursors d d' ∧
      ∀ n n', i.Alike n n' → i.Copies n.children n'.children →
        i.Copies (xs ++ [n]) (xs' ++ [n']) := by
  induction passes generalizing c' with
  | @stop c ended =>
    refine ⟨[], c', .stop fun n kind => ?_, here, fun n n' alike kids => .singleton alike kids⟩
    rw [← here.depth]
    obtain ⟨stands, -, -⟩ := here
    generalize c.place = p, c.rest = r, c'.place = p', c'.rest = r' at stands ended ⊢
    cases stands with
    | before parts some_ =>
      rcases spaced.between_front parts some_ c.depth with
        ⟨-, other⟩ | ⟨m, m', found, one, other, lengths⟩ | ⟨m, one, -, -⟩
      · simp [other]
      · cases m with
        | zero =>
          have present := List.length_pos_iff.2 some_
          obtain ⟨-, rfl⟩ | ⟨less, -⟩ := lengths
          · simp [other]
          · omega
        | succ m => exact absurd one (ended m found)
      · exact absurd one (ended _ none)
    | behind parts => exact ended n kind
  | @piece c d m kind xs found _ ih =>
    -- The rest is passed over behind both pieces.
    have go {n' : Nat} (found' : g.between c'.depth c'.rest = some (n' + 1, kind))
        (skip : i.Cursors (c.skip (m + 1)) (c'.skip (n' + 1))) :
        ∃ xs' d', g.Passes c' xs' d' ∧ i.Cursors d d' ∧
          ∀ n n', i.Alike n n' → i.Copies n.children n'.children →
            i.Copies (c.passed (m + 1) kind ++ xs ++ [n]) (xs' ++ [n']) := by
      obtain ⟨xs', d', later, there, copies⟩ := ih skip
      refine ⟨_, d', .piece found' later, there, fun n n' alike kids => ?_⟩
      rw [List.append_assoc, List.append_assoc]
      exact (copies_passed here skip kind).append (copies n n' alike kids)
    rcases here.cases with ⟨passed, rest, parts, some_, place, text, place', text'⟩ |
      ⟨passed, parts, place, place', same⟩
    · have moved {n n' : Nat} (lengths : i.Lengths rest.length n n') :
          i.Cursors (c.skip n) (c'.skip n') := by
        refine here.skip ?_
        rw [place, text, place', text']
        exact stands_take parts lengths
      rw [text] at found
      rcases spaced.between_front parts some_ c.depth with
        ⟨one, -⟩ | ⟨n, n', kind', one, other, lengths⟩ | ⟨n, one, other, behind⟩
      · rw [one] at found
        cases found
      · obtain ⟨rfl, rfl⟩ := Prod.mk.inj (Option.some.inj (one.symm.trans found))
        rw [← text', here.depth] at other
        obtain ⟨n', rfl⟩ : ∃ k, n' = k + 1 := by
          refine Nat.exists_eq_succ_of_ne_zero ?_
          unfold Lengths at lengths
          omega
        exact go other (moved lengths)
      · -- The blanks go on behind the comment.
        obtain ⟨total, rfl⟩ := Prod.mk.inj (Option.some.inj (found.symm.trans one))
        have skip := moved (n := m + 1) (.inr ⟨by omega, rfl⟩)
        obtain ⟨xs', d', later, there, copies⟩ := ih skip
        have steps : c'.skip (m + 1 + i.comment.length) =
            ((c'.skip rest.length).skip i.comment.length).skip (n + 1) := by
          rw [Cursor.skip_skip, Cursor.skip_skip, total]
          congr 1
          omega
        rw [steps] at later
        have atComment : (c'.skip rest.length).rest = i.comment ++ i.back := by
          rw [Cursor.rest_skip, text', List.drop_left]
        have atBack : ((c'.skip rest.length).skip i.comment.length).rest = i.back := by
          rw [Cursor.rest_skip, atComment, List.drop_left]
        have depths (n : Nat) (e : Cursor) (same : e.depth = c.depth) :
            (e.skip n).depth = c.depth := by
          rw [(e.other_skip n).1, same]
        have first := depths rest.length c' here.depth.symm
        have second := depths i.comment.length _ first
        rw [← atBack, ← second] at behind
        have comment := spaced.comment c.depth
        rw [← spaced.between, ← atComment, ← first] at comment
        rw [← text', here.depth] at other
        have passes := Grammar.Passes.of_ne_zero other (by simpa using some_)
          (.of_ne_zero comment (by simpa using spaced.filled) (.piece behind later))
        refine ⟨_, d', passes, there, fun n n' alike kids => ?_⟩
        have copy := copies n n' alike kids
        obtain ⟨head, tail, whole⟩ := List.exists_cons_of_ne_nil
          (List.append_ne_nil_of_right_ne_nil xs (List.cons_ne_nil n []))
        show i.Copies (xs ++ [n]) (_ :: (xs' ++ [n']))
        rw [whole] at copy ⊢
        have start : (c'.skip rest.length).place = .behind i.front := by
          rw [Cursor.place_skip, text', List.take_left, place', ← Place.behind_append, ← parts]
        refine .comment ⟨rfl, rfl, rfl, ?_, ?_⟩ copy
        · show (c'.skip rest.length).place.offset = i.front.length
          rw [start, Place.behind_offset]
        · show ((c'.skip rest.length).skip i.comment.length).place.offset = _
          rw [Cursor.place_skip, atComment, List.take_left, start, ← Place.behind_append,
            Place.behind_offset, List.length_append]
    · have found' : g.between c'.depth c'.rest = some (m + 1, kind) := by
        rw [same, ← here.depth, found]
      refine go found' (here.skip ?_)
      rw [place, place', same]
      refine stands_foldl ?_
      rw [List.take_append_drop, parts]

theorem leads : i.Leads g where
  cursors {c c'} here := by
    obtain ⟨xs', d', passes', there, -⟩ := spaced.passes (Grammar.passes_lead spaced.nothing c) here
    obtain ⟨-, rfl⟩ := passes'.unique (Grammar.passes_lead spaced.nothing c')
    exact there
  copies {c c' n n'} here alike kids := by
    obtain ⟨xs', d', passes', -, copies⟩ :=
      spaced.passes (Grammar.passes_lead spaced.nothing c) here
    obtain ⟨rfl, -⟩ := passes'.unique (Grammar.passes_lead spaced.nothing c')
    exact copies n n' alike kids

end Insertion.Spaced

/-! ## Documents -/

/-- An empty node where the cursor stands. -/
def Cursor.mark (c : Cursor) : Node :=
  { kind := "", start := c.place, stop := c.place, tail := c.rest }

theorem Insertion.Cursors.mark {c c' : Cursor} (here : i.Cursors c c') : i.Alike c.mark c'.mark :=
  ⟨rfl, rfl, rfl, rfl, here.stands, _, _, here.stands⟩

namespace Grammar

variable {g : Grammar σ} {a : Rule σ} {fills : σ → Bool} {height : σ → Nat} {bound : Nat}

theorem height_le_depthLimit {n m : Nat} (low : a.heightBy fills height ≤ 4096)
    (few : bound ≤ 512) (less : n ≤ m) : a.heightBy fills height + bound * n ≤ depthLimit m := by
  have least := Nat.mul_le_mul few less
  unfold depthLimit
  omega

/-- A document is read without the comment exactly if it is with it, and then the nodes are copies.
The node at the end of either list stands for the end of the document. -/
theorem copies_of_read? (leads : i.Leads g) (rules : ∀ name, (g.rule name).Keeps g i)
    (keeps : a.Keeps g i) (measured : g.Measured fills height bound) (plain : a.IsPlain)
    (within : a.within fills height bound = true) (low : a.heightBy fills height ≤ 4096)
    (few : bound ≤ 512) (filled : i.front ≠ []) (kind : String) :
    (g.read? kind a i.bare = none ∧ g.read? kind a i.commented = none) ∨
      ∃ root root' last last', g.read? kind a i.bare = some root ∧
        g.read? kind a i.commented = some root' ∧ i.Alike last last' ∧ last.kind = "" ∧
        i.Copies (root.children ++ [last]) (root'.children ++ [last']) := by
  have start : i.Cursors (.start i.bare) (.start i.commented) :=
    ⟨.before (List.nil_append i.front).symm filled, rfl, rfl⟩
  have length : i.commented.length = i.bare.length + i.comment.length := by
    simp only [Insertion.commented, Insertion.bare, List.length_append]
    omega
  have deeper : g.run (depthLimit i.bare.length) [] a (.start i.bare) =
      g.run (depthLimit i.commented.length) [] a (.start i.bare) := by
    have longer : i.bare.length ≤ i.commented.length := by omega
    exact run_eq_run measured plain within (height_le_depthLimit low few (Nat.le_refl _))
      (height_le_depthLimit low few longer)
  have agree := agree_run (n := depthLimit i.commented.length) leads rules keeps start .nil
  rw [read?, read?, deeper]
  dsimp only
  generalize g.run (depthLimit i.commented.length) [] a (.start i.bare) = r,
    g.run (depthLimit i.commented.length) [] a (.start i.commented) = r' at agree ⊢
  cases agree with
  | fails => exact .inl ⟨rfl, rfl⟩
  | @reads xs xs' c c' nodes behind =>
    have led := leads.cursors behind
    have ended : (g.lead c).2.rest.isEmpty = (g.lead c').2.rest.isEmpty := by
      rcases led.cases with ⟨_, rest, -, some_, -, text, -, text'⟩ | ⟨_, -, -, -, same⟩
      · obtain ⟨d, ds, rfl⟩ := List.exists_cons_of_ne_nil some_
        rw [text, text']
        rfl
      · rw [same]
    dsimp only
    rw [← ended]
    cases (g.lead c).2.rest.isEmpty with
    | false => exact .inl ⟨rfl, rfl⟩
    | true =>
      refine .inr ⟨_, _, (g.lead c).2.mark, (g.lead c').2.mark, rfl, rfl, led.mark, rfl, ?_⟩
      rw [List.append_assoc, List.append_assoc]
      exact nodes.append (leads.copies behind led.mark .nil)

end Grammar

end CodeOutline.Syntax
