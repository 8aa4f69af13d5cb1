import CodeOutline.Proofs.Syntax.Scanning

/-!
What rules read, as a relation: a rule takes characters and makes nodes for all bounds of the
depth from some number on, or it fails for every bound. Each kind of rule has a lemma for
either case.
-/

set_option autoImplicit false

namespace CodeOutline.Syntax

/-- The place behind the characters at the beginning of a text. -/
def Place.behind (cs : List Char) : Place := cs.foldl Place.next .origin

/-- A cursor between two parts of a text, outside all brackets. -/
def Cursor.between (before rest : List Char) : Cursor := { place := .behind before, rest }

/-- The node around some characters of a text. -/
def Node.around (kind : String) (isNamed : Bool) (before cs rest : List Char)
    (children : List Node) : Node :=
  { kind, isNamed, start := .behind before, stop := .behind (before ++ cs), tail := cs ++ rest,
    children }

def Node.inRole (n : Node) (name : String) : Node := { n with field := some name }

theorem Place.behind_append (before cs : List Char) :
    behind (before ++ cs) = cs.foldl next (behind before) := List.foldl_append

theorem Place.offset_foldl_next (p : Place) (cs : List Char) :
    (cs.foldl next p).offset = p.offset + cs.length := by
  induction cs generalizing p with
  | nil => rfl
  | cons c cs ih =>
    have step : (p.next c).offset = p.offset + 1 := by
      unfold next
      split <;> rfl
    rw [List.foldl_cons, ih, step, List.length_cons]
    omega

@[simp]
theorem Place.behind_offset (cs : List Char) : (behind cs).offset = cs.length := by
  rw [behind, offset_foldl_next]
  exact Nat.zero_add _

theorem Cursor.skip_foldl (c : Cursor) (cs rest : List Char) (here : c.rest = cs ++ rest) :
    c.skip cs.length = { c with place := cs.foldl Place.next c.place, rest } := by
  induction cs generalizing c with
  | nil =>
    rw [List.nil_append] at here
    rw [← here]
    rfl
  | cons d ds ih =>
    rw [List.length_cons, skip, here, List.cons_append]
    exact ih _ rfl

@[simp]
theorem Cursor.skip_between (before cs rest : List Char) :
    (between before (cs ++ rest)).skip cs.length = between (before ++ cs) rest := by
  rw [skip_foldl _ cs rest rfl]
  simp [between, Place.behind_append]

@[simp]
theorem Node.chars_around (kind : String) (isNamed : Bool) (before cs rest : List Char)
    (children : List Node) : (around kind isNamed before cs rest children).chars = cs := by
  simp [chars, around]

namespace Grammar

variable {σ : Type} {g : Grammar σ} {a b : Rule σ} {c c₁ c₂ : Cursor} {n m : Nat}
  {xs ys : List Node}

/-! One step of the reader, for each kind of rule that occurs below -/

section Steps

variable (g : Grammar σ) (fuel : Nat) (left : List Node) (a b : Rule σ) (c : Cursor)

theorem run_call (name : σ) :
    g.run (fuel + 1) left (.call name) c = g.run fuel left (g.rule name) c := rfl

theorem run_seq : g.run (fuel + 1) left (.seq a b) c =
    match g.run fuel [] a c with
    | none => none
    | some (xs, c) =>
      match g.run fuel [] b c with
      | none => none
      | some (ys, c) => some (xs ++ ys, c) := rfl

theorem run_alt : g.run (fuel + 1) left (.alt a b) c =
    match g.run fuel left a c with
    | some found => some found
    | none => g.run fuel left b c := rfl

theorem run_many : g.run (fuel + 1) left (.many a) c =
    match g.run fuel [] a c with
    | none => some ([], c)
    | some (xs, stop) =>
      if stop.place.offset = c.place.offset then some ([], c)
      else match g.run fuel [] (.many a) stop with
        | none => some (xs, stop)
        | some (ys, stop) => some (xs ++ ys, stop) := rfl

theorem run_node (kind : String) : g.run (fuel + 1) left (.node kind a) c =
    match g.run fuel [] a c with
    | some (nodes, stop) => some (c.enclose stop kind nodes, stop)
    | none => none := rfl

theorem run_field (name : String) : g.run (fuel + 1) left (.field name a) c =
    match g.run fuel left a c with
    | some (nodes, stop) => some (assignField name nodes, stop)
    | none => none := rfl

theorem run_done : g.run (fuel + 1) left .done c = some ([], c) := rfl

theorem run_chain (step : Rule σ) : g.run (fuel + 1) left (.chain a step) c =
    match g.run fuel [] a c with
    | some (nodes, stop) => g.run fuel nodes (.grow step) stop
    | none => none := rfl

theorem run_grow : g.run (fuel + 1) left (.grow a) c =
    match g.run fuel left a c with
    | some (nodes, stop) => g.run fuel nodes (.grow a) stop
    | none => some (left, c) := rfl

theorem run_wrap (kind role : String) : g.run (fuel + 1) left (.wrap kind role a) c =
    match g.run fuel [] a c with
    | some (nodes, stop) => some (c.enclose stop kind (assignField role left ++ nodes), stop)
    | none => none := rfl

theorem run_ahead : g.run (fuel + 1) left (.ahead a) c =
    match g.run fuel [] a c with
    | some _ => some ([], c)
    | none => none := rfl

theorem run_notAhead : g.run (fuel + 1) left (.notAhead a) c =
    match g.run fuel [] a c with
    | some _ => none
    | none => some ([], c) := rfl

theorem run_sign (s : String) : g.run (fuel + 1) left (.sign s) c =
    match Text.dropStart? s.toList (g.lead c).2.rest with
    | some _ => some (take (g.lead c).1 (g.lead c).2 s false s.length)
    | none => none := rfl

theorem run_word (s : String) : g.run (fuel + 1) left (.word s) c =
    match g.dropWord? s.toList (g.lead c).2.rest with
    | some (d :: _) =>
      if g.isWordChar d then none
      else some (take (g.lead c).1 (g.lead c).2 s false s.length)
    | some [] => some (take (g.lead c).1 (g.lead c).2 s false s.length)
    | none => none := rfl

theorem run_longest (known wanted : List String) :
    g.run (fuel + 1) left (.longest known wanted) c =
      match longestSign? known (g.lead c).2.rest with
      | some s =>
        if wanted.contains s then some (take (g.lead c).1 (g.lead c).2 s false s.length)
        else none
      | none => none := rfl

theorem run_leaf (kind : String) (scan : Scan) : g.run (fuel + 1) left (.leaf kind scan) c =
    match scan (g.lead c).2.rest with
    | some length => some (take (g.lead c).1 (g.lead c).2 kind true length)
    | none => none := rfl

end Steps

def Reads (g : Grammar σ) (n : Nat) (a : Rule σ) (c : Cursor) (xs : List Node) (c' : Cursor) :
    Prop :=
  ∀ fuel, n ≤ fuel → ∀ left, g.run fuel left a c = some (xs, c')

def Fails (g : Grammar σ) (a : Rule σ) (c : Cursor) : Prop :=
  ∀ fuel left, g.run fuel left a c = none

/-! Rules that fit -/

namespace Reads

theorem mono (reads : g.Reads n a c xs c₁) (more : n ≤ m) : g.Reads m a c xs c₁ :=
  fun fuel enough => reads fuel (Nat.le_trans more enough)

theorem of_step
    (step : ∀ fuel, n ≤ fuel → ∀ left, g.run (fuel + 1) left a c = some (xs, c₁)) :
    g.Reads (n + 1) a c xs c₁ := by
  intro fuel enough left
  cases fuel with
  | zero => omega
  | succ fuel => exact step fuel (by omega) left

theorem done (c : Cursor) : g.Reads 1 .done c [] c := of_step fun _ _ _ => rfl

theorem call {name : σ} (reads : g.Reads n (g.rule name) c xs c₁) :
    g.Reads (n + 1) (.call name) c xs c₁ := by
  refine of_step fun fuel enough left => ?_
  rw [run_call]
  exact reads fuel enough left

theorem seq (first : g.Reads n a c xs c₁) (second : g.Reads m b c₁ ys c₂) :
    g.Reads (max n m + 1) (.seq a b) c (xs ++ ys) c₂ := by
  refine of_step fun fuel enough left => ?_
  have one := first fuel (by omega) []
  have other := second fuel (by omega) []
  simp only [run_seq, one, other]

theorem alt_left (reads : g.Reads n a c xs c₁) : g.Reads (n + 1) (.alt a b) c xs c₁ := by
  refine of_step fun fuel enough left => ?_
  simp only [run_alt, reads fuel enough]

theorem alt_right (fails : g.Fails a c) (reads : g.Reads n b c xs c₁) :
    g.Reads (n + 1) (.alt a b) c xs c₁ := by
  refine of_step fun fuel enough left => ?_
  simp only [run_alt, fails fuel, reads fuel enough]

theorem many_nil (fails : g.Fails a c) : g.Reads 1 (.many a) c [] c := by
  refine of_step fun fuel _ left => ?_
  simp only [run_many, fails fuel]

theorem many_cons (first : g.Reads n a c xs c₁) (moves : c₁.place.offset ≠ c.place.offset)
    (others : g.Reads m (.many a) c₁ ys c₂) :
    g.Reads (max n m + 1) (.many a) c (xs ++ ys) c₂ := by
  refine of_step fun fuel enough left => ?_
  have one := first fuel (by omega) []
  have more := others fuel (by omega) []
  simp only [run_many, one, if_neg moves, more]

theorem node (kind : String) (reads : g.Reads n a c xs c₁) :
    g.Reads (n + 1) (.node kind a) c (c.enclose c₁ kind xs) c₁ := by
  refine of_step fun fuel enough left => ?_
  simp only [run_node, reads fuel enough]

theorem field (name : String) (reads : g.Reads n a c xs c₁) :
    g.Reads (n + 1) (.field name a) c (assignField name xs) c₁ := by
  refine of_step fun fuel enough left => ?_
  simp only [run_field, reads fuel enough]

end Reads

/-! Rules that do not fit -/

namespace Fails

theorem of_step (step : ∀ fuel left, g.run (fuel + 1) left a c = none) : g.Fails a c := by
  intro fuel left
  cases fuel with
  | zero => rfl
  | succ fuel => exact step fuel left

theorem call {name : σ} (fails : g.Fails (g.rule name) c) : g.Fails (.call name) c :=
  of_step fun fuel left => fails fuel left

theorem seq (fails : g.Fails a c) : g.Fails (.seq a b) c :=
  of_step fun fuel left => by simp only [run_seq, fails fuel]

theorem alt (first : g.Fails a c) (second : g.Fails b c) : g.Fails (.alt a b) c :=
  of_step fun fuel left => by simp only [run_alt, first fuel, second fuel]

theorem node (kind : String) (fails : g.Fails a c) : g.Fails (.node kind a) c :=
  of_step fun fuel left => by simp only [run_node, fails fuel]

theorem field (name : String) (fails : g.Fails a c) : g.Fails (.field name a) c :=
  of_step fun fuel left => by simp only [run_field, fails fuel]

end Fails

/-! Alternatives -/

theorem Reads.choice {front back : List (Rule σ)} (fails : ∀ b ∈ front, g.Fails b c)
    (reads : g.Reads n a c xs c₁) :
    g.Reads (n + front.length + 1) (Rule.choice (front ++ a :: back)) c xs c₁ := by
  induction front with
  | nil =>
    cases back with
    | nil => exact reads.mono (by omega)
    | cons b back => exact reads.alt_left
  | cons b front ih =>
    rw [List.forall_mem_cons] at fails
    obtain ⟨d, rules, others⟩ : ∃ d rules, front ++ a :: back = d :: rules :=
      List.exists_cons_of_ne_nil (by simp)
    have read := ih fails.2
    rw [others] at read
    rw [List.cons_append, others, List.length_cons]
    exact .alt_right fails.1 read

theorem Fails.choice {rules : List (Rule σ)} (fails : ∀ b ∈ rules, g.Fails b c) :
    g.Fails (Rule.choice rules) c := by
  induction rules with
  | nil => exact of_step fun _ _ => rfl
  | cons b rules ih =>
    rw [List.forall_mem_cons] at fails
    cases rules with
    | nil => exact fails.1
    | cons d rules => exact .alt fails.1 (ih fails.2)

/-! Tokens -/

def Skips (g : Grammar σ) (gap rest : List Char) : Prop :=
  ∀ before, g.lead (.between before (gap ++ rest)) = ([], .between (before ++ gap) rest)

variable {before gap cs rest : List Char} {kind : String} {scan : Scan}

theorem skips_of_blank {comments : List (String × Scan)}
    (between : ∀ depth cs, g.between depth cs = Scan.between comments cs)
    (blank : ∀ c ∈ gap, Scan.blank c = true) (stops : Scan.StopsAt Scan.blank rest)
    (plain : ∀ comment ∈ comments, comment.2 rest = none) : g.Skips gap rest := by
  have ended : Scan.between comments rest = none := by
    cases rest with
    | nil => rfl
    | cons c cs =>
      rw [Scan.between, if_neg (by simp [stops c rfl]), List.findSome?_eq_none_iff]
      intro comment member
      simp [plain comment member]
  have stop (fuel : List Char) (before : List Char) :
      g.pass fuel (.between before rest) = ([], .between before rest) := by
    cases fuel with
    | nil => rfl
    | cons _ fuel => simp only [pass, Cursor.between, between, ended]
  intro before
  cases gap with
  | nil => simp only [lead, Cursor.between, between, List.nil_append, ended, List.append_nil]
  | cons d ds =>
    have first : Scan.between comments (d :: (ds ++ rest)) = some (ds.length + 1, none) := by
      rw [Scan.between, if_pos (blank d (by simp)), ← List.cons_append,
        Scan.takeWhile_append_of_stopsAt blank stops, List.length_cons]
    have here : (Cursor.between before (d :: (ds ++ rest))).rest = d :: (ds ++ rest) := rfl
    have skipped : (Cursor.between before (d :: (ds ++ rest))).skip (ds.length + 1) =
        .between (before ++ d :: ds) rest := Cursor.skip_between before (d :: ds) rest
    simp only [List.cons_append, lead, pass, between, here, first, skipped, stop]

private theorem take_between (before cs rest : List Char) (kind : String) (isNamed : Bool) :
    take [] (.between before (cs ++ rest)) kind isNamed cs.length =
      ([.around kind isNamed before cs rest []], .between (before ++ cs) rest) := by
  rw [take, Cursor.skip_between]
  rfl

theorem Skips.reads_sign {s : String} (skips : g.Skips gap (s.toList ++ rest))
    (before : List Char) :
    g.Reads 1 (.sign s) (.between before (gap ++ (s.toList ++ rest)))
      [.around s false (before ++ gap) s.toList rest []]
      (.between (before ++ gap ++ s.toList) rest) := by
  refine .of_step fun fuel _ left => ?_
  have here : (Cursor.between (before ++ gap) (s.toList ++ rest)).rest = s.toList ++ rest := rfl
  simp only [run_sign, skips before, here, Scan.dropStart?_append, ← String.length_toList,
    take_between]

theorem Skips.reads_leaf (kind : String) (skips : g.Skips gap (cs ++ rest))
    (takes : scan.Takes cs rest) (before : List Char) :
    g.Reads 1 (.leaf kind scan) (.between before (gap ++ (cs ++ rest)))
      [.around kind true (before ++ gap) cs rest []] (.between (before ++ gap ++ cs) rest) := by
  refine .of_step fun fuel _ left => ?_
  have here : scan (Cursor.between (before ++ gap) (cs ++ rest)).rest = some cs.length := takes
  simp only [run_leaf, skips before, here, take_between]

theorem Skips.fails_sign {s : String} (skips : g.Skips gap rest)
    (other : s.toList.head? ≠ rest.head?) (filled : s ≠ "") (before : List Char) :
    g.Fails (.sign s) (.between before (gap ++ rest)) := by
  refine .of_step fun fuel left => ?_
  have absent : Text.dropStart? s.toList rest = none := by
    simpa [Scan.text] using Scan.text_eq_none other filled
  have here : (Cursor.between (before ++ gap) rest).rest = rest := rfl
  simp only [run_sign, skips before, here, absent]

theorem Skips.fails_leaf (skips : g.Skips gap rest) (fails : scan rest = none)
    (before : List Char) : g.Fails (.leaf kind scan) (.between before (gap ++ rest)) := by
  refine .of_step fun fuel left => ?_
  have here : scan (Cursor.between (before ++ gap) rest).rest = none := fails
  simp only [run_leaf, skips before, here]

theorem read?_of_reads (kind : String)
    (reads : g.Reads n a (.between [] (cs ++ gap)) xs (.between cs gap)) (skips : g.Skips gap [])
    (enough : n ≤ depthLimit (cs ++ gap).length) :
    g.read? kind a (cs ++ gap) =
      some { kind, start := .origin, stop := .behind (cs ++ gap), tail := cs ++ gap,
             children := xs } := by
  have start : Cursor.start (cs ++ gap) = .between [] (cs ++ gap) := rfl
  have ended := skips cs
  rw [List.append_nil] at ended
  rw [read?, start]
  simp only [reads _ enough, ended, List.append_nil]
  rfl

/-! Nodes around others -/

theorem assignField_singleton {x : Node} (name : String) (proper : x.isExtra = false)
    (free : x.field = none) : assignField name [x] = [x.inRole name] := by
  simp [assignField, Node.inRole, proper, free]

theorem Reads.enclosed {m₁ m₂ : Nat} {first inner last : Rule σ} {c₃ : Cursor} {x z : Node}
    (kind : String) (opens : g.Reads n first c [x] c₁) (within : g.Reads m₁ inner c₁ ys c₂)
    (closes : g.Reads m₂ last c₂ [z] c₃) (proper : x.isExtra = false)
    (starts : x.start = .behind before) (here : x.tail = cs ++ rest)
    (stops : z.stop = .behind (before ++ cs)) :
    g.Reads (max n (max m₁ m₂) + 3) (.node kind (Rule.sequence [first, inner, last])) c
      [.around kind true before cs rest (x :: (ys ++ [z]))] c₃ := by
  have ends : (x :: (ys ++ [z])).getLast? = some z := by
    rw [← List.cons_append, List.getLast?_concat]
  have around : c.enclose c₃ kind (x :: (ys ++ [z])) =
      [.around kind true before cs rest (x :: (ys ++ [z]))] := by
    simp [Cursor.enclose, splitExtras, proper, ends, Node.around, starts, here, stops]
  rw [← around]
  exact ((opens.seq (within.seq closes)).node kind).mono (by omega)

end Grammar

end CodeOutline.Syntax
