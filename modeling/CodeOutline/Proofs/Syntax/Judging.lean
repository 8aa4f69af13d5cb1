import CodeOutline.Proofs.Syntax.Reading

/-!
Whether a rule fits and how far it goes, told from the characters alone. A judgement is
computed; it holds for every bound of the depth from its own on, so what was judged in front of
some characters can be put together with what is known of texts that vary.
-/

set_option autoImplicit false

namespace CodeOutline.Syntax

/-- What becomes of a rule at the beginning of a text: it does not fit, or it takes so many
characters. -/
inductive Verdict
  | stops
  | takes (n : Nat)
deriving DecidableEq, Repr

theorem Cursor.skip_between_take (before text : List Char) (n : Nat) :
    (between before text).skip n = between (before ++ text.take n) (text.drop n) := by
  induction n generalizing before text with
  | zero => simp [skip]
  | succ n ih =>
    cases text with
    | nil => simp [skip, between]
    | cons c cs =>
      have moved : ({ between before (c :: cs) with
          place := (between before (c :: cs)).place.next c, rest := cs } : Cursor) =
          between (before ++ [c]) cs := by simp [between, Place.behind_append]
      have here : (between before (c :: cs)).rest = c :: cs := rfl
      rw [skip, here]
      simp only [moved, ih]
      simp

namespace Verdict

/-- First so many characters, then what becomes of the next rule. -/
def behind (n : Nat) : Verdict → Verdict
  | stops => stops
  | takes m => takes (n + m)

def cursor? (before text : List Char) : Verdict → Option Cursor
  | stops => none
  | takes n => some (.between (before ++ text.take n) (text.drop n))

end Verdict

namespace Grammar

variable {σ : Type} (g : Grammar σ)

/-- The length of the tokens that a rule reads, when it is a rule for one token. -/
def token? : Rule σ → Option Scan
  | .sign s => some (fun cs => (Text.dropStart? s.toList cs).map (fun _ => s.length))
  | .word s => some (fun cs =>
    match g.dropWord? s.toList cs with
    | some (d :: _) => if g.isWordChar d then none else some s.length
    | some [] => some s.length
    | none => none)
  | .longest known wanted => some (fun cs =>
    (longestSign? known cs).bind (fun s => if wanted.contains s then some s.length else none))
  | .leaf _ scan => some scan
  | _ => none

/-- How many characters stand before the next token; of the first text, which bounds the number
of pieces, one character is given up for each. -/
def gapTo : List Char → List Char → Nat
  | [], _ => 0
  | _ :: fuel, cs =>
    match g.between 0 cs with
    | none => 0
    | some (0, _) => 0
    | some (n + 1, _) => n + 1 + gapTo fuel (cs.drop (n + 1))

def gap (cs : List Char) : Nat := g.gapTo cs cs

def judgeToken (scan : Scan) (cs : List Char) : Verdict :=
  match scan (cs.drop (g.gap cs)) with
  | some n => .takes (g.gap cs + n)
  | none => .stops

/-- What becomes of a rule at the beginning of a text outside all brackets; nothing when the
bound was too small to tell, or when the rule looks at more than the characters. -/
def judge : Nat → Rule σ → List Char → Option Verdict
  | 0, _, _ => none
  | fuel + 1, rule, cs =>
    let next (b : Rule σ) (n : Nat) : Option Verdict :=
      (judge fuel b (cs.drop n)).map (Verdict.behind n)
    match rule with
    | .done => some (.takes 0)
    | .never => some .stops
    | .call name => judge fuel (g.rule name) cs
    | .seq a b =>
      match judge fuel a cs with
      | some (.takes n) => next b n
      | other => other
    | .alt a b =>
      match judge fuel a cs with
      | some .stops => judge fuel b cs
      | other => other
    | .many a =>
      match judge fuel a cs with
      | some .stops | some (.takes 0) => some (.takes 0)
      | some (.takes (n + 1)) =>
        if cs.isEmpty then some (.takes 0)
        else match judge fuel (.many a) (cs.drop (n + 1)) with
          | some (.takes m) => some (.takes (n + 1 + m))
          | _ => none
      | none => none
    | .node _ a | .field _ a | .wrap _ _ a => judge fuel a cs
    | .chain base step =>
      match judge fuel base cs with
      | some (.takes n) => next (.grow step) n
      | other => other
    | .grow step =>
      match judge fuel step cs with
      | some .stops => some (.takes 0)
      | some (.takes n) => next (.grow step) n
      | none => none
    | .ahead a =>
      match judge fuel a cs with
      | some (.takes _) => some (.takes 0)
      | other => other
    | .notAhead a =>
      match judge fuel a cs with
      | some (.takes _) => some .stops
      | some .stops => some (.takes 0)
      | none => none
    | rule => (g.token? rule).map (g.judgeToken · cs)

/-! What a judgement says about the reader -/

variable {g} {a b step : Rule σ} {n m k l : Nat} {text : List Char} {v : Verdict}

def Settles (g : Grammar σ) (n : Nat) (a : Rule σ) (text : List Char) (v : Verdict) : Prop :=
  ∀ before fuel left, n ≤ fuel →
    (g.run fuel left a (.between before text)).map Prod.snd = v.cursor? before text

theorem pass_between (fuel before text : List Char) :
    (g.pass fuel (.between before text)).2 =
      .between (before ++ text.take (g.gapTo fuel text)) (text.drop (g.gapTo fuel text)) := by
  induction fuel generalizing before text with
  | nil => simp [pass, gapTo]
  | cons _ fuel ih =>
    have depth : (Cursor.between before text).depth = 0 := rfl
    have rest : (Cursor.between before text).rest = text := rfl
    rw [pass, gapTo, depth, rest]
    obtain missing | ⟨⟨_ | n, kind⟩, found⟩ := Option.eq_none_or_eq_some (g.between 0 text)
    · simp [missing]
    · simp [found]
    · have last := ih (before ++ text.take (n + 1)) (text.drop (n + 1))
      rw [List.append_assoc, ← List.take_add, List.drop_drop] at last
      simp only [found, Cursor.skip_between_take]
      cases kind with
      | none => exact last
      | some kind => exact last

theorem lead_between (before text : List Char) :
    (g.lead (.between before text)).2 =
      .between (before ++ text.take (g.gap text)) (text.drop (g.gap text)) := by
  rw [lead]
  split
  · next missing =>
    have alone : g.between 0 text = none := missing
    cases text with
    | nil => simp [gap, gapTo]
    | cons c cs => simp [gap, gapTo, alone]
  · exact pass_between text before text

theorem run_token {scan : Scan} (token : g.token? a = some scan) (fuel : Nat) (left : List Node)
    (c : Cursor) : (g.run (fuel + 1) left a c).map Prod.snd =
      (scan (g.lead c).2.rest).map (g.lead c).2.skip := by
  cases a with
  | sign s =>
    obtain rfl := Option.some.inj token
    rw [run_sign]
    split
    · next found => simp [found, take]
    · next missing => simp [missing]
  | word s =>
    obtain rfl := Option.some.inj token
    rw [run_word]
    split
    · next d _ found =>
      by_cases inWord : g.isWordChar d = true <;> simp [found, inWord, take]
    · next found => simp [found, take]
    · next missing => simp [missing]
  | longest known wanted =>
    obtain rfl := Option.some.inj token
    rw [run_longest]
    split
    · next s found =>
      by_cases among : wanted.contains s = true
      · simp only [found, Option.bind_some, if_pos among]
        rfl
      · simp only [found, Option.bind_some, if_neg among]
        rfl
    · next missing => simp [missing]
  | leaf kind scan =>
    obtain rfl := Option.some.inj token
    rw [run_leaf]
    split
    · next found => simp [found, take]
    · next missing => simp [missing]
  | _ => cases token

theorem cursor?_behind (before text : List Char) (n : Nat) (v : Verdict) :
    (v.behind n).cursor? before text = v.cursor? (before ++ text.take n) (text.drop n) := by
  cases v with
  | stops => rfl
  | takes m => simp [Verdict.behind, Verdict.cursor?, List.take_add]

namespace Settles

theorem mono (settles : g.Settles n a text v) (more : n ≤ m) : g.Settles m a text v :=
  fun before fuel left enough => settles before fuel left (Nat.le_trans more enough)

theorem of_step (step : ∀ before fuel left, n ≤ fuel →
    (g.run (fuel + 1) left a (.between before text)).map Prod.snd = v.cursor? before text) :
    g.Settles (n + 1) a text v := by
  intro before fuel left enough
  cases fuel with
  | zero => omega
  | succ fuel => exact step before fuel left (by omega)

theorem run_eq (settles : g.Settles n a text (.takes k)) (before : List Char) {fuel : Nat}
    (left : List Node) (enough : n ≤ fuel) : ∃ xs, g.run fuel left a (.between before text) =
      some (xs, .between (before ++ text.take k) (text.drop k)) := by
  obtain ⟨⟨xs, c⟩, run, rfl⟩ := Option.map_eq_some_iff.1 (settles before fuel left enough)
  exact ⟨xs, run⟩

theorem run_eq_none (settles : g.Settles n a text .stops) (before : List Char) {fuel : Nat}
    (left : List Node) (enough : n ≤ fuel) : g.run fuel left a (.between before text) = none :=
  Option.map_eq_none_iff.1 (settles before fuel left enough)

theorem done : g.Settles 1 .done text (.takes 0) :=
  of_step fun before _ _ _ => by simp [run_done, Verdict.cursor?]

theorem never : g.Settles 1 .never text .stops := of_step fun _ _ _ _ => rfl

theorem call {name : σ} (inner : g.Settles n (g.rule name) text v) :
    g.Settles (n + 1) (.call name) text v :=
  of_step fun before fuel left enough => inner before fuel left enough

theorem seq (first : g.Settles n a text (.takes k)) (second : g.Settles m b (text.drop k) v) :
    g.Settles (max n m + 1) (.seq a b) text (v.behind k) := by
  refine of_step fun before fuel left enough => ?_
  obtain ⟨xs, run⟩ := first.run_eq before [] (show n ≤ fuel by omega)
  have more := second (before ++ text.take k) fuel [] (by omega)
  rw [cursor?_behind, ← more, run_seq, run]
  dsimp only
  split
  · next fails => rw [fails]
  · next fits => rw [fits]; rfl

theorem seq_stops (first : g.Settles n a text .stops) :
    g.Settles (n + 1) (.seq a b) text .stops := by
  refine of_step fun before fuel left enough => ?_
  rw [run_seq, first.run_eq_none before [] enough]
  rfl

theorem alt_left (fits : g.Settles n a text (.takes k)) :
    g.Settles (n + 1) (.alt a b) text (.takes k) := by
  refine of_step fun before fuel left enough => ?_
  obtain ⟨xs, run⟩ := fits.run_eq before left enough
  rw [run_alt, run]
  rfl

theorem alt_right (fails : g.Settles n a text .stops) (other : g.Settles m b text v) :
    g.Settles (max n m + 1) (.alt a b) text v := by
  refine of_step fun before fuel left enough => ?_
  rw [run_alt, fails.run_eq_none before left (by omega)]
  exact other before fuel left (by omega)

theorem many_stops (fails : g.Settles n a text .stops) :
    g.Settles (n + 1) (.many a) text (.takes 0) := by
  refine of_step fun before fuel left enough => ?_
  rw [run_many, fails.run_eq_none before [] enough]
  simp [Verdict.cursor?]

theorem many_still (fits : g.Settles n a text (.takes k)) (still : text.take k = []) :
    g.Settles (n + 1) (.many a) text (.takes 0) := by
  refine of_step fun before fuel left enough => ?_
  obtain ⟨xs, run⟩ := fits.run_eq before [] enough
  have same : (Cursor.between (before ++ text.take k) (text.drop k)).place.offset =
      (Cursor.between before text).place.offset := by simp [Cursor.between, still]
  rw [run_many, run]
  dsimp only
  rw [if_pos same]
  simp [Verdict.cursor?]

theorem many_more (first : g.Settles n a text (.takes k)) (moves : text.take k ≠ [])
    (others : g.Settles m (.many a) (text.drop k) (.takes l)) :
    g.Settles (max n m + 1) (.many a) text (.takes (k + l)) := by
  refine of_step fun before fuel left enough => ?_
  obtain ⟨xs, run⟩ := first.run_eq before [] (show n ≤ fuel by omega)
  obtain ⟨ys, more⟩ := others.run_eq (before ++ text.take k) [] (show m ≤ fuel by omega)
  have apart : (Cursor.between (before ++ text.take k) (text.drop k)).place.offset ≠
      (Cursor.between before text).place.offset := by
    have filled := List.length_pos_iff.2 moves
    simp only [Cursor.between, Place.behind_offset, List.length_append]
    omega
  have last : (Verdict.takes (k + l)).cursor? before text =
      (Verdict.takes l).cursor? (before ++ text.take k) (text.drop k) :=
    cursor?_behind before text k (.takes l)
  rw [last, run_many, run]
  dsimp only
  rw [if_neg apart, more]
  rfl

theorem node {kind : String} (inner : g.Settles n a text v) :
    g.Settles (n + 1) (.node kind a) text v := by
  refine of_step fun before fuel left enough => ?_
  rw [← inner before fuel [] enough, run_node]
  split
  · next fits => rw [fits]; rfl
  · next fails => rw [fails]

theorem field {name : String} (inner : g.Settles n a text v) :
    g.Settles (n + 1) (.field name a) text v := by
  refine of_step fun before fuel left enough => ?_
  rw [← inner before fuel left enough, run_field]
  split
  · next fits => rw [fits]; rfl
  · next fails => rw [fails]

theorem wrap {kind role : String} (inner : g.Settles n a text v) :
    g.Settles (n + 1) (.wrap kind role a) text v := by
  refine of_step fun before fuel left enough => ?_
  rw [← inner before fuel [] enough, run_wrap]
  split
  · next fits => rw [fits]; rfl
  · next fails => rw [fails]

theorem chain (first : g.Settles n a text (.takes k))
    (growth : g.Settles m (.grow step) (text.drop k) v) :
    g.Settles (max n m + 1) (.chain a step) text (v.behind k) := by
  refine of_step fun before fuel left enough => ?_
  obtain ⟨xs, run⟩ := first.run_eq before [] (show n ≤ fuel by omega)
  rw [cursor?_behind, run_chain, run]
  exact growth _ fuel xs (by omega)

theorem chain_stops (first : g.Settles n a text .stops) :
    g.Settles (n + 1) (.chain a step) text .stops := by
  refine of_step fun before fuel left enough => ?_
  rw [run_chain, first.run_eq_none before [] enough]
  rfl

theorem grow_stops (fails : g.Settles n step text .stops) :
    g.Settles (n + 1) (.grow step) text (.takes 0) := by
  refine of_step fun before fuel left enough => ?_
  rw [run_grow, fails.run_eq_none before left enough]
  simp [Verdict.cursor?]

theorem grow_more (first : g.Settles n step text (.takes k))
    (growth : g.Settles m (.grow step) (text.drop k) v) :
    g.Settles (max n m + 1) (.grow step) text (v.behind k) := by
  refine of_step fun before fuel left enough => ?_
  obtain ⟨xs, run⟩ := first.run_eq before left (show n ≤ fuel by omega)
  rw [cursor?_behind, run_grow, run]
  exact growth _ fuel xs (by omega)

theorem ahead (fits : g.Settles n a text (.takes k)) :
    g.Settles (n + 1) (.ahead a) text (.takes 0) := by
  refine of_step fun before fuel left enough => ?_
  obtain ⟨xs, run⟩ := fits.run_eq before [] enough
  rw [run_ahead, run]
  simp [Verdict.cursor?]

theorem ahead_stops (fails : g.Settles n a text .stops) :
    g.Settles (n + 1) (.ahead a) text .stops := by
  refine of_step fun before fuel left enough => ?_
  rw [run_ahead, fails.run_eq_none before [] enough]
  rfl

theorem notAhead (fits : g.Settles n a text (.takes k)) :
    g.Settles (n + 1) (.notAhead a) text .stops := by
  refine of_step fun before fuel left enough => ?_
  obtain ⟨xs, run⟩ := fits.run_eq before [] enough
  rw [run_notAhead, run]
  rfl

theorem notAhead_stops (fails : g.Settles n a text .stops) :
    g.Settles (n + 1) (.notAhead a) text (.takes 0) := by
  refine of_step fun before fuel left enough => ?_
  rw [run_notAhead, fails.run_eq_none before [] enough]
  simp [Verdict.cursor?]

theorem token {scan : Scan} (token : g.token? a = some scan) :
    g.Settles 1 a text (g.judgeToken scan text) := by
  refine of_step fun before fuel left _ => ?_
  rw [run_token token, lead_between, judgeToken]
  have here : (Cursor.between (before ++ text.take (g.gap text)) (text.drop (g.gap text))).rest =
      text.drop (g.gap text) := rfl
  rw [here]
  cases scan (text.drop (g.gap text)) with
  | none => rfl
  | some n =>
    rw [Option.map_some, Cursor.skip_between_take, List.append_assoc, ← List.take_add,
      List.drop_drop]
    rfl

end Settles

theorem settles_of_judge {fuel : Nat} (judged : g.judge fuel a text = some v) :
    g.Settles fuel a text v := by
  induction fuel generalizing a text v with
  | zero => cases judged
  | succ fuel ih =>
    cases a with
    | done =>
      obtain rfl := Option.some.inj judged
      exact Settles.done.mono (by omega)
    | never =>
      obtain rfl := Option.some.inj judged
      exact Settles.never.mono (by omega)
    | call name => exact .call (ih judged)
    | seq a b =>
      simp only [judge] at judged
      split at judged
      · next first =>
        obtain ⟨w, second, rfl⟩ := Option.map_eq_some_iff.1 judged
        exact ((ih first).seq (ih second)).mono (by omega)
      · next other =>
        cases v with
        | stops => exact (ih judged).seq_stops
        | takes n => exact absurd judged (other n)
    | alt a b =>
      simp only [judge] at judged
      split at judged
      · next fails => exact ((ih fails).alt_right (ih judged)).mono (by omega)
      · next other =>
        cases v with
        | stops => exact absurd judged other
        | takes n => exact (ih judged).alt_left
    | many a =>
      simp only [judge] at judged
      split at judged
      · next fails =>
        obtain rfl := Option.some.inj judged
        exact (ih fails).many_stops
      · next still =>
        obtain rfl := Option.some.inj judged
        exact (ih still).many_still List.take_zero
      · next n first =>
        split at judged
        · next ended =>
          obtain rfl := Option.some.inj judged
          exact (ih first).many_still (by rw [List.isEmpty_iff.1 ended, List.take_nil])
        · next going =>
          split at judged
          · next others =>
            obtain rfl := Option.some.inj judged
            refine ((ih first).many_more ?_ (ih others)).mono (by omega)
            simpa [List.take_eq_nil_iff] using going
          · cases judged
      · cases judged
    | node kind a => exact .node (ih judged)
    | field name a => exact .field (ih judged)
    | wrap kind role a => exact .wrap (ih judged)
    | chain a step =>
      simp only [judge] at judged
      split at judged
      · next first =>
        obtain ⟨w, growth, rfl⟩ := Option.map_eq_some_iff.1 judged
        exact ((ih first).chain (ih growth)).mono (by omega)
      · next other =>
        cases v with
        | stops => exact (ih judged).chain_stops
        | takes n => exact absurd judged (other n)
    | grow step =>
      simp only [judge] at judged
      split at judged
      · next fails =>
        obtain rfl := Option.some.inj judged
        exact (ih fails).grow_stops
      · next first =>
        obtain ⟨w, growth, rfl⟩ := Option.map_eq_some_iff.1 judged
        exact ((ih first).grow_more (ih growth)).mono (by omega)
      · cases judged
    | ahead a =>
      simp only [judge] at judged
      split at judged
      · next fits =>
        obtain rfl := Option.some.inj judged
        exact (ih fits).ahead
      · next other =>
        cases v with
        | stops => exact (ih judged).ahead_stops
        | takes n => exact absurd judged (other n)
    | notAhead a =>
      simp only [judge] at judged
      split at judged
      · next fits =>
        obtain rfl := Option.some.inj judged
        exact (ih fits).notAhead
      · next fails =>
        obtain rfl := Option.some.inj judged
        exact (ih fails).notAhead_stops
      · cases judged
    | _ =>
      simp only [judge] at judged
      obtain ⟨scan, token, rfl⟩ := Option.map_eq_some_iff.1 judged
      exact (Settles.token token).mono (by omega)

/-! From one text to what is left of it -/

def Leaves (g : Grammar σ) (n : Nat) (a : Rule σ) (text rest : List Char) : Prop :=
  ∃ cs, text = cs ++ rest ∧ g.Settles n a text (.takes cs.length)

def Stops (g : Grammar σ) (n : Nat) (a : Rule σ) (text : List Char) : Prop :=
  g.Settles n a text .stops

variable {cs rest text₁ text₂ : List Char}

theorem leaves_of_judge (cs : List Char)
    (judged : g.judge n a (cs ++ rest) = some (.takes cs.length)) :
    g.Leaves n a (cs ++ rest) rest := ⟨cs, rfl, settles_of_judge judged⟩

theorem stays_of_judge (judged : g.judge n a text = some (.takes 0)) : g.Leaves n a text text :=
  ⟨[], rfl, settles_of_judge judged⟩

theorem stops_of_judge (judged : g.judge n a text = some .stops) : g.Stops n a text :=
  settles_of_judge judged

theorem Leaves.of_reads
    (reads : ∀ before, ∃ xs, g.Reads n a (.between before (cs ++ rest)) xs
      (.between (before ++ cs) rest)) : g.Leaves n a (cs ++ rest) rest := by
  refine ⟨cs, rfl, fun before fuel left enough => ?_⟩
  obtain ⟨xs, reads⟩ := reads before
  rw [reads fuel enough left]
  simp [Verdict.cursor?]

theorem Stops.of_fails (fails : ∀ before, g.Fails a (.between before text)) (n : Nat) :
    g.Stops n a text := by
  intro before fuel left _
  rw [fails before fuel left]
  rfl

theorem Skips.leaves_sign {s : String} {blanks : List Char}
    (skips : g.Skips blanks (s.toList ++ rest)) :
    g.Leaves 1 (.sign s) (blanks ++ (s.toList ++ rest)) rest := by
  rw [← List.append_assoc]
  refine .of_reads fun before => ⟨[.around s false (before ++ blanks) s.toList rest []], ?_⟩
  rw [List.append_assoc, ← List.append_assoc before]
  exact skips.reads_sign before

theorem Skips.leaves_leaf {kind : String} {scan : Scan} {blanks : List Char}
    (skips : g.Skips blanks (cs ++ rest)) (takes : scan.Takes cs rest) :
    g.Leaves 1 (.leaf kind scan) (blanks ++ (cs ++ rest)) rest := by
  rw [← List.append_assoc]
  refine .of_reads fun before => ⟨[.around kind true (before ++ blanks) cs rest []], ?_⟩
  rw [List.append_assoc, ← List.append_assoc before]
  exact skips.reads_leaf kind takes before

namespace Leaves

theorem length_le (leaves : g.Leaves n a text rest) : rest.length ≤ text.length := by
  obtain ⟨cs, rfl, -⟩ := leaves
  simp

theorem mono (leaves : g.Leaves n a text rest) (more : n ≤ m) : g.Leaves m a text rest := by
  obtain ⟨cs, whole, settles⟩ := leaves
  exact ⟨cs, whole, settles.mono more⟩

theorem seq (first : g.Leaves n a text text₁) (second : g.Leaves m b text₁ text₂) :
    g.Leaves (max n m + 1) (.seq a b) text text₂ := by
  obtain ⟨xs, rfl, one⟩ := first
  obtain ⟨ys, rfl, other⟩ := second
  have next : g.Settles m b ((xs ++ (ys ++ text₂)).drop xs.length) (.takes ys.length) := by
    rwa [List.drop_left]
  have both := one.seq next
  rw [Verdict.behind, ← List.length_append] at both
  exact ⟨xs ++ ys, (List.append_assoc ..).symm, both⟩

theorem alt_left (fits : g.Leaves n a text rest) : g.Leaves (n + 1) (.alt a b) text rest := by
  obtain ⟨cs, whole, settles⟩ := fits
  exact ⟨cs, whole, settles.alt_left⟩

theorem alt_right (fails : g.Stops n a text) (fits : g.Leaves m b text rest) :
    g.Leaves (max n m + 1) (.alt a b) text rest := by
  obtain ⟨cs, whole, settles⟩ := fits
  exact ⟨cs, whole, fails.alt_right settles⟩

theorem opt (fits : g.Leaves n a text rest) : g.Leaves (n + 1) (Rule.opt a) text rest :=
  fits.alt_left

theorem opt_stays (fails : g.Stops n a text) :
    g.Leaves (max n 1 + 1) (Rule.opt a) text text :=
  ⟨[], rfl, fails.alt_right .done⟩

theorem many_stays (fails : g.Stops n a text) : g.Leaves (n + 1) (.many a) text text :=
  ⟨[], rfl, fails.many_stops⟩

theorem many_more (first : g.Leaves n a text text₁) (moves : text ≠ text₁)
    (others : g.Leaves m (.many a) text₁ text₂) :
    g.Leaves (max n m + 1) (.many a) text text₂ := by
  obtain ⟨xs, rfl, one⟩ := first
  obtain ⟨ys, rfl, more⟩ := others
  have next : g.Settles m (.many a) ((xs ++ (ys ++ text₂)).drop xs.length) (.takes ys.length) := by
    rwa [List.drop_left]
  have filled : (xs ++ (ys ++ text₂)).take xs.length ≠ [] := by
    rw [List.take_left]
    rintro rfl
    exact moves rfl
  have all := one.many_more filled next
  rw [← List.length_append] at all
  exact ⟨xs ++ ys, (List.append_assoc ..).symm, all⟩

theorem call {name : σ} (inner : g.Leaves n (g.rule name) text rest) :
    g.Leaves (n + 1) (.call name) text rest := by
  obtain ⟨cs, whole, settles⟩ := inner
  exact ⟨cs, whole, settles.call⟩

theorem node {kind : String} (inner : g.Leaves n a text rest) :
    g.Leaves (n + 1) (.node kind a) text rest := by
  obtain ⟨cs, whole, settles⟩ := inner
  exact ⟨cs, whole, settles.node⟩

theorem field {name : String} (inner : g.Leaves n a text rest) :
    g.Leaves (n + 1) (.field name a) text rest := by
  obtain ⟨cs, whole, settles⟩ := inner
  exact ⟨cs, whole, settles.field⟩

theorem ahead (fits : g.Leaves n a text rest) : g.Leaves (n + 1) (.ahead a) text text := by
  obtain ⟨cs, -, settles⟩ := fits
  exact ⟨[], rfl, settles.ahead⟩

theorem wrap {kind role : String} (inner : g.Leaves n a text rest) :
    g.Leaves (n + 1) (.wrap kind role a) text rest := by
  obtain ⟨cs, whole, settles⟩ := inner
  exact ⟨cs, whole, settles.wrap⟩

theorem grow_stays (fails : g.Stops n step text) : g.Leaves (n + 1) (.grow step) text text :=
  ⟨[], rfl, fails.grow_stops⟩

theorem grow_more (first : g.Leaves n step text text₁)
    (others : g.Leaves m (.grow step) text₁ text₂) :
    g.Leaves (max n m + 1) (.grow step) text text₂ := by
  obtain ⟨xs, rfl, one⟩ := first
  obtain ⟨ys, rfl, more⟩ := others
  have next : g.Settles m (.grow step) ((xs ++ (ys ++ text₂)).drop xs.length)
      (.takes ys.length) := by rwa [List.drop_left]
  have both := one.grow_more next
  rw [Verdict.behind, ← List.length_append] at both
  exact ⟨xs ++ ys, (List.append_assoc ..).symm, both⟩

theorem chain_grow (base : g.Leaves n a text text₁)
    (growth : g.Leaves m (.grow step) text₁ text₂) :
    g.Leaves (max n m + 1) (.chain a step) text text₂ := by
  obtain ⟨xs, rfl, one⟩ := base
  obtain ⟨ys, rfl, more⟩ := growth
  have next : g.Settles m (.grow step) ((xs ++ (ys ++ text₂)).drop xs.length)
      (.takes ys.length) := by rwa [List.drop_left]
  have both := one.chain next
  rw [Verdict.behind, ← List.length_append] at both
  exact ⟨xs ++ ys, (List.append_assoc ..).symm, both⟩

theorem chain (base : g.Leaves n a text rest) (stops : g.Stops m step rest) :
    g.Leaves (max n (m + 1) + 1) (.chain a step) text rest := base.chain_grow (.grow_stays stops)

theorem unique (one : g.Leaves n a text text₁) (other : g.Leaves m a text text₂) :
    text₁ = text₂ := by
  obtain ⟨xs, rfl, here⟩ := one
  obtain ⟨ys, whole, there⟩ := other
  have same := (here [] (max n m) [] (by omega)).symm.trans (there [] (max n m) [] (by omega))
  have rests := congrArg Cursor.rest (Option.some.inj same)
  simp only [Cursor.between] at rests
  rw [List.drop_left, whole, List.drop_left] at rests
  exact rests

end Leaves

namespace Stops

theorem mono (stops : g.Stops n a text) (more : n ≤ m) : g.Stops m a text :=
  Settles.mono stops more

theorem seq_left (fails : g.Stops n a text) : g.Stops (n + 1) (.seq a b) text :=
  Settles.seq_stops fails

theorem seq_right (first : g.Leaves n a text rest) (fails : g.Stops m b rest) :
    g.Stops (max n m + 1) (.seq a b) text := by
  obtain ⟨cs, rfl, settles⟩ := first
  have next : g.Settles m b ((cs ++ rest).drop cs.length) .stops := by rwa [List.drop_left]
  exact settles.seq next

theorem alt (left : g.Stops n a text) (right : g.Stops m b text) :
    g.Stops (max n m + 1) (.alt a b) text := Settles.alt_right left right

theorem call {name : σ} (inner : g.Stops n (g.rule name) text) :
    g.Stops (n + 1) (.call name) text := Settles.call inner

theorem node {kind : String} (inner : g.Stops n a text) : g.Stops (n + 1) (.node kind a) text :=
  Settles.node inner

theorem field {name : String} (inner : g.Stops n a text) :
    g.Stops (n + 1) (.field name a) text := Settles.field inner

theorem wrap {kind role : String} (inner : g.Stops n a text) :
    g.Stops (n + 1) (.wrap kind role a) text := Settles.wrap inner

end Stops

theorem Stops.choice {rules : List (Rule σ)} (fails : ∀ b ∈ rules, g.Stops n b text) :
    g.Stops (n + rules.length) (Rule.choice rules) text := by
  induction rules with
  | nil => exact .of_fails (fun _ => .of_step fun _ _ => rfl) _
  | cons b rules ih =>
    rw [List.forall_mem_cons] at fails
    cases rules with
    | nil => exact fails.1.mono (by omega)
    | cons d rules => exact (fails.1.alt (ih fails.2)).mono (by simp only [List.length_cons]; omega)

/-! Tokens behind some blanks -/

section Tokens

variable {scan : Scan} {blanks : List Char}

theorem leaves_token (token : g.token? a = some scan)
    (gap : g.gap (blanks ++ (cs ++ rest)) = blanks.length) (fits : scan.Takes cs rest) :
    g.Leaves 1 a (blanks ++ (cs ++ rest)) rest := by
  have settles : g.Settles 1 a (blanks ++ (cs ++ rest)) _ := Settles.token token
  have found : scan (cs ++ rest) = some cs.length := fits
  rw [judgeToken, gap, List.drop_left, found] at settles
  exact ⟨blanks ++ cs, (List.append_assoc ..).symm, by rwa [List.length_append]⟩

theorem stops_token (token : g.token? a = some scan)
    (gap : g.gap (blanks ++ rest) = blanks.length) (fails : scan rest = none) :
    g.Stops 1 a (blanks ++ rest) := by
  have settles : g.Settles 1 a (blanks ++ rest) _ := Settles.token token
  rwa [judgeToken, gap, List.drop_left, fails] at settles

theorem stops_sign_of_other {s s' : String} {c d : Char} {ds ds' : List Char}
    (one : s.toList = c :: ds) (other : s'.toList = d :: ds') (apart : c ≠ d)
    (fits : ¬ g.Stops 1 (.sign s) text) : g.Stops 1 (.sign s') text := by
  have here : g.Settles 1 (.sign s) text _ := Settles.token rfl
  have there : g.Settles 1 (.sign s') text _ := Settles.token rfl
  rw [judgeToken, one] at here
  rw [judgeToken, other] at there
  cases behind : text.drop (g.gap text) with
  | nil =>
    rw [behind] at there
    exact there
  | cons e es =>
    rw [behind, Text.dropStart?] at here there
    by_cases same : c = e
    · rw [if_neg (fun again => apart (same.trans again.symm))] at there
      exact there
    · rw [if_neg same] at here
      exact absurd here fits

def fold (g : Grammar σ) (c : Char) : Char := if g.foldsCase then c.toLower else c

theorem append_of_dropWord? {w : List Char} (spelled : ∀ c ∈ w, g.fold c = c)
    (found : g.dropWord? w text = some rest) : ∃ xs, text = xs ++ rest ∧ xs.map g.fold = w := by
  induction w generalizing text with
  | nil =>
    obtain rfl := Option.some.inj found
    exact ⟨[], rfl, rfl⟩
  | cons a w ih =>
    rw [List.forall_mem_cons] at spelled
    cases text with
    | nil => cases found
    | cons b text =>
      rw [dropWord?] at found
      split at found
      · next fits =>
        obtain ⟨xs, rfl, same⟩ := ih spelled.2 found
        refine ⟨b :: xs, rfl, ?_⟩
        have head : g.fold b = a := by
          rw [Bool.or_eq_true, decide_eq_true_eq, Bool.and_eq_true, decide_eq_true_eq] at fits
          rcases fits with rfl | ⟨folds, rfl⟩
          · exact spelled.1
          · rw [fold, if_pos folds]
        rw [List.map_cons, head, same]
      · cases found

theorem dropWord?_append (cs rest : List Char) :
    g.dropWord? (cs.map g.fold) (cs ++ rest) = some rest := by
  induction cs with
  | nil => rfl
  | cons c cs ih =>
    have fits :
        (decide (g.fold c = c) || (g.foldsCase && decide (g.fold c = c.toLower))) = true := by
      unfold fold
      split
      · next folds => simp [folds]
      · simp
    rw [List.map_cons, List.cons_append, dropWord?, if_pos fits, ih]

theorem leaves_word {s : String} (spelled : cs.map g.fold = s.toList) {d : Char}
    (apart : g.isWordChar d = false)
    (gap : g.gap (blanks ++ (cs ++ d :: rest)) = blanks.length) :
    g.Leaves 1 (.word s) (blanks ++ (cs ++ d :: rest)) (d :: rest) := by
  refine leaves_token rfl gap ?_
  have found : g.dropWord? s.toList (cs ++ d :: rest) = some (d :: rest) := by
    rw [← spelled, dropWord?_append]
  have same : s.length = cs.length := by rw [← String.length_toList, ← spelled, List.length_map]
  simp [Scan.Takes, found, apart, same]

theorem stops_word {s : String} (spelled : ∀ c ∈ s.toList, g.fold c = c)
    (letters : ∀ c, g.fold c ∈ s.toList → g.isWordChar c = true)
    (gap : g.gap (blanks ++ rest) = blanks.length)
    (other : (rest.takeWhile g.isWordChar).map g.fold ≠ s.toList) :
    g.Stops 1 (.word s) (blanks ++ rest) := by
  refine stops_token rfl gap ?_
  cases found : g.dropWord? s.toList rest with
  | none => rfl
  | some behind =>
    obtain ⟨xs, rfl, same⟩ := append_of_dropWord? spelled found
    have inside : ∀ c ∈ xs, g.isWordChar c = true := fun c member =>
      letters c (same ▸ List.mem_map_of_mem member)
    cases behind with
    | nil =>
      rw [Scan.takeWhile_append_of_stopsAt inside (Scan.stopsAt_nil _)] at other
      exact absurd same other
    | cons d behind =>
      cases inWord : g.isWordChar d with
      | true => simp [inWord]
      | false =>
        rw [Scan.takeWhile_append_of_stopsAt inside (Scan.stopsAt_cons inWord behind)] at other
        exact absurd same other

theorem longestSign?_eq_none {known : List String} {text : List Char}
    (apart : ∀ s ∈ known, s ≠ "" ∧ s.toList.head? ≠ text.head?) :
    longestSign? known text = none := by
  have missing : ∀ s ∈ known, Text.dropStart? s.toList text = none := fun s member =>
    Option.map_eq_none_iff.1 (Scan.text_eq_none (apart s member).2 (apart s member).1)
  unfold longestSign?
  induction known with
  | nil => rfl
  | cons s known ih =>
    rw [List.forall_mem_cons] at apart missing
    rw [List.foldl_cons, missing.1]
    exact ih apart.2 missing.2

end Tokens

/-! Parts one after the other -/

/-- The rule takes just this text behind each of the gaps, whatever follows, and no deeper than
the limit of the text's own length. -/
structure IsPart (g : Grammar σ) (a : Rule σ) (gaps : List (List Char)) (part : List Char) :
    Prop where
  filled : part ≠ []
  leaves : ∀ gap ∈ gaps, ∀ rest,
    g.Leaves (depthLimit part.length) a (gap ++ (part ++ rest)) rest

inductive Parts (g : Grammar σ) (a : Rule σ) (gaps : List (List Char)) : List Char → Prop
  | nil : Parts g a gaps []
  | cons {gap part others : List Char} (among : gap ∈ gaps) (first : g.IsPart a gaps part)
    (rest : Parts g a gaps others) : Parts g a gaps (gap ++ (part ++ others))

theorem Parts.append {gaps : List (List Char)} {xs ys : List Char} (front : g.Parts a gaps xs)
    (back : g.Parts a gaps ys) : g.Parts a gaps (xs ++ ys) := by
  induction front with
  | nil => exact back
  | cons among first _ ih =>
    rw [List.append_assoc, List.append_assoc]
    exact .cons among first ih

theorem Parts.leaves {gaps : List (List Char)} {parts : List Char} (all : g.Parts a gaps parts)
    (stops : g.Stops n a rest) (enough : n ≤ depthLimit 0) :
    g.Leaves (depthLimit parts.length + 1) (.many a) (parts ++ rest) rest := by
  induction all with
  | nil => exact (Leaves.many_stays stops).mono (Nat.succ_le_succ enough)
  | @cons gap part others among first _ ih =>
    have filled := List.length_pos_iff.2 first.filled
    rw [List.append_assoc, List.append_assoc]
    refine ((first.leaves gap among (others ++ rest)).many_more (fun same => ?_) ih).mono ?_
    · have lengths := congrArg List.length same
      simp only [List.length_append] at lengths
      omega
    · simp only [depthLimit, List.length_append]
      omega

/-! Texts that are read alone -/

/-- What stands in front of a token: nothing, or one blank. -/
def blanks : List (List Char) := [[], [' ']]

theorem nil_mem_blanks : [] ∈ blanks := .head _

theorem space_mem_blanks : [' '] ∈ blanks := .tail _ (.head _)

/-- The rule takes just this text behind nothing or one blank, in front of each of the closings,
and no deeper than the limit of the text's own length. -/
def IsRead (g : Grammar σ) (a : Rule σ) (closings : List (List Char)) (cs : List Char) : Prop :=
  ∀ gap ∈ blanks, ∀ closing ∈ closings, ∀ rest,
    g.Leaves (depthLimit cs.length) a (gap ++ (cs ++ (closing ++ rest))) (closing ++ rest)

theorem isRead_of_judge {closings : List (List Char)}
    (judged : ∀ gap ∈ blanks, ∀ closing ∈ closings, ∀ rest,
      g.judge (depthLimit cs.length) a (gap ++ (cs ++ (closing ++ rest))) =
        some (.takes (gap ++ cs).length)) : g.IsRead a closings cs := by
  intro gap blank closing among rest
  have text : gap ++ (cs ++ (closing ++ rest)) = gap ++ cs ++ (closing ++ rest) :=
    (List.append_assoc ..).symm
  have here := judged gap blank closing among rest
  rw [text] at here ⊢
  exact leaves_of_judge (gap ++ cs) here

/-! Texts between commas -/

/-- Texts behind a comma and a blank each. -/
def more (ps : List (List Char)) : List Char := ps.flatMap ([',', ' '] ++ ·)

/-- Texts with a comma and a blank between two. -/
def list (ps : List (List Char)) : List Char :=
  match ps with
  | [] => []
  | p :: ps => p ++ more ps

def IsItem (g : Grammar σ) (a : Rule σ) (cs : List Char) : Prop :=
  ∀ gap ∈ blanks, ∀ c ∈ [',', ')'], ∀ rest,
    g.Leaves (depthLimit cs.length + 200) a (gap ++ (cs ++ c :: rest)) (c :: rest)

theorem more_eq_cons (ps : List (List Char)) (rest : List Char) :
    ∃ c ∈ [',', ')'], ∃ tail, more ps ++ ')' :: rest = c :: tail := by
  cases ps with
  | nil => exact ⟨')', by simp, rest, rfl⟩
  | cons p ps => exact ⟨',', by simp, _, rfl⟩

section Commas

variable (bare : ∀ c ∈ [',', ')'], ∀ cs, g.gap (c :: cs) = 0)

include bare

theorem leaves_more {ps : List (List Char)} (each : ∀ p ∈ ps, g.IsItem a p) (rest : List Char) :
    g.Leaves (depthLimit (more ps).length + 210) (.many (.seq (.sign ",") a))
      (more ps ++ ')' :: rest) (')' :: rest) := by
  induction ps with
  | nil =>
    have none : g.Stops 1 (.sign ",") ([] ++ ')' :: rest) :=
      stops_token rfl (bare ')' (by simp) rest)
        (Scan.text_eq_none (s := ",") (by simp) (by decide))
    exact (Leaves.many_stays none.seq_left).mono (by simp [depthLimit])
  | cons p ps ih =>
    rw [List.forall_mem_cons] at each
    have comma : g.Leaves 1 (.sign ",")
        ([] ++ ([','] ++ ([' '] ++ (p ++ (more ps ++ ')' :: rest)))))
        ([' '] ++ (p ++ (more ps ++ ')' :: rest))) :=
      leaves_token rfl (bare ',' (by simp) _) (Scan.takes_text "," _)
    have text : more (p :: ps) ++ ')' :: rest =
        [] ++ ([','] ++ ([' '] ++ (p ++ (more ps ++ ')' :: rest)))) := by simp [more]
    have next : g.Leaves (depthLimit p.length + 200) a
        ([' '] ++ (p ++ (more ps ++ ')' :: rest))) (more ps ++ ')' :: rest) := by
      obtain ⟨c, among, tail, whole⟩ := more_eq_cons ps rest
      rw [whole]
      exact each.1 [' '] space_mem_blanks c among tail
    have longer : (more (p :: ps)).length = p.length + (more ps).length + 2 := by
      simp [more]
    rw [← text] at comma
    refine ((comma.seq next).many_more (fun same => ?_) (ih each.2)).mono ?_
    · have lengths := congrArg List.length same
      rw [List.length_append, longer, List.length_append] at lengths
      omega
    · rw [longer, depthLimit, depthLimit, depthLimit]
      omega

theorem leaves_commas {p : List Char} {ps : List (List Char)}
    (each : ∀ q ∈ p :: ps, g.IsItem a q) (rest : List Char) :
    g.Leaves (depthLimit (list (p :: ps)).length + 212) (Rule.commas a)
      (list (p :: ps) ++ ')' :: rest) (')' :: rest) := by
  rw [List.forall_mem_cons] at each
  have first : g.Leaves (depthLimit p.length + 200) a
      (p ++ (more ps ++ ')' :: rest)) (more ps ++ ')' :: rest) := by
    obtain ⟨c, among, tail, whole⟩ := more_eq_cons ps rest
    rw [whole]
    exact each.1 [] nil_mem_blanks c among tail
  rw [list, List.append_assoc]
  refine (first.seq (leaves_more bare each.2 rest)).mono ?_
  simp only [depthLimit, List.length_append]
  omega

end Commas

/-! Documents -/

theorem stays_move {f : Cursor → Cursor → Option Cursor}
    (still : ∀ before c, f (.between before text) c = some (.between before text)) :
    g.Leaves 1 (.move f) text text := by
  refine ⟨[], rfl, Settles.of_step fun before fuel left _ => ?_⟩
  have run : g.run (fuel + 1) left (.move f) (.between before text) =
      some ([], .between before text) := by
    rw [Grammar.run, still]
  simp [run, Verdict.cursor?]

theorem read?_isSome (kind : String) (leaves : g.Leaves n a text rest)
    (enough : n ≤ depthLimit text.length) (ends : g.gap rest = rest.length) :
    (g.read? kind a text).isSome = true := by
  obtain ⟨cs, rfl, settles⟩ := leaves
  have start : Cursor.start (cs ++ rest) = .between [] (cs ++ rest) := rfl
  obtain ⟨xs, run⟩ := settles.run_eq [] [] enough
  rw [List.take_left, List.drop_left] at run
  have last := g.lead_between ([] ++ cs) rest
  rw [ends, List.drop_length] at last
  have ended : (g.lead (.between ([] ++ cs) rest)).2.rest.isEmpty = true := by rw [last]; rfl
  rw [read?, start, run]
  dsimp only
  rw [if_pos ended]
  rfl

theorem read?_eq_none {blanks : List Char} (kind : String)
    (leaves : g.Leaves n a text (blanks ++ rest)) (enough : n ≤ depthLimit text.length)
    (skips : g.Skips blanks rest) (filled : rest ≠ []) : g.read? kind a text = none := by
  obtain ⟨cs, rfl, settles⟩ := leaves
  have start : Cursor.start (cs ++ (blanks ++ rest)) = .between [] (cs ++ (blanks ++ rest)) := rfl
  obtain ⟨xs, run⟩ := settles.run_eq [] [] enough
  rw [List.take_left, List.drop_left] at run
  have more : (Cursor.between ([] ++ cs ++ blanks) rest).rest.isEmpty = false := by
    simpa [Cursor.between] using filled
  rw [read?, start, run]
  dsimp only
  rw [skips ([] ++ cs)]
  dsimp only
  rw [if_neg (by rw [more]; exact Bool.false_ne_true)]

end Grammar

end CodeOutline.Syntax
