import CodeOutline.Syntax.Scan

/-!
What a scan takes in front of a rest, part by part. A part that goes on as long as it can
needs to know what follows it, unless a blank ends it.
-/

set_option autoImplicit false

namespace CodeOutline.Syntax.Scan

variable {a b : Scan} {xs ys rest : List Char} {c : Char} {p : Char → Bool}

def Takes (a : Scan) (xs rest : List Char) : Prop := a (xs ++ rest) = some xs.length

def StopsAt (p : Char → Bool) (cs : List Char) : Prop := ∀ c, cs.head? = some c → p c = false

theorem stopsAt_cons (other : p c = false) (cs : List Char) : StopsAt p (c :: cs) := by
  rintro d ⟨⟩
  exact other

theorem stopsAt_nil (p : Char → Bool) : StopsAt p [] := nofun

theorem StopsAt.mono {q : Char → Bool} (stops : StopsAt q rest)
    (weaker : ∀ c, q c = false → p c = false) : StopsAt p rest :=
  fun c head => weaker c (stops c head)

theorem StopsAt.head?_ne (stops : StopsAt p rest) (fits : p c = true) : rest.head? ≠ some c := by
  intro head
  rw [stops c head] at fits
  cases fits

theorem dropStart?_append (start rest : List Char) :
    Text.dropStart? start (start ++ rest) = some rest := by
  induction start with
  | nil => rfl
  | cons c start ih => rw [List.cons_append, Text.dropStart?, if_pos rfl, ih]

theorem append_of_dropStart? {start cs rest : List Char}
    (drop : Text.dropStart? start cs = some rest) : start ++ rest = cs := by
  induction start generalizing cs with
  | nil => exact (Option.some.inj drop).symm
  | cons c start ih =>
    cases cs with
    | nil => cases drop
    | cons d cs =>
      rw [Text.dropStart?] at drop
      split at drop
      · next same => rw [List.cons_append, ih drop, same]
      · cases drop

theorem takes_text (s : String) (rest : List Char) : (text s).Takes s.toList rest := by
  rw [Takes, text, dropStart?_append, Option.map_some, String.length_toList]

theorem text_eq_none {s : String} (other : s.toList.head? ≠ rest.head?) (filled : s ≠ "") :
    text s rest = none := by
  unfold text
  rw [Option.map_eq_none_iff]
  cases letters : s.toList with
  | nil => exact absurd (String.toList_eq_nil_iff.1 letters) filled
  | cons d ds =>
    rw [letters] at other
    cases rest with
    | nil => rfl
    | cons c cs =>
      rw [Text.dropStart?, if_neg]
      rintro rfl
      exact other rfl

theorem takes_one (fits : p c = true) (rest : List Char) : (one p).Takes [c] rest := by
  simp [Takes, one, fits]

theorem one_eq_none (stops : StopsAt p rest) : one p rest = none := by
  cases rest with
  | nil => rfl
  | cons c cs => simp [one, stops c rfl]

theorem takeWhile_append_of_stopsAt (all : ∀ c ∈ xs, p c = true) (stops : StopsAt p rest) :
    (xs ++ rest).takeWhile p = xs := by
  rw [List.takeWhile_append_of_pos all]
  cases rest with
  | nil => simp
  | cons c cs => simp [stops c rfl]

theorem takes_run (all : ∀ c ∈ xs, p c = true) (stops : StopsAt p rest) :
    (run p).Takes xs rest := by
  rw [Takes, run, takeWhile_append_of_stopsAt all stops]

theorem takes_run1 (all : ∀ c ∈ xs, p c = true) (filled : xs ≠ []) (stops : StopsAt p rest) :
    (run1 p).Takes xs rest := by
  rw [Takes, run1, takeWhile_append_of_stopsAt all stops]
  cases xs with
  | nil => exact absurd rfl filled
  | cons c cs => rfl

namespace Takes

theorem seq (first : a.Takes xs (ys ++ rest)) (second : b.Takes ys rest) :
    (seq a b).Takes (xs ++ ys) rest := by
  rw [Takes] at first second
  simp [Takes, Scan.seq, List.append_assoc, first, second]

theorem alt_left (fits : a.Takes xs rest) : (alt a b).Takes xs rest := by
  rw [Takes] at fits
  simp [Takes, alt, fits]

theorem alt_right (fails : a (xs ++ rest) = none) (fits : b.Takes xs rest) :
    (alt a b).Takes xs rest := by
  rw [Takes] at fits
  simp [Takes, alt, fails, fits]

theorem opt (fits : a.Takes xs rest) : (opt a).Takes xs rest := alt_left fits

theorem opt_nil (fails : a rest = none) : (Scan.opt a).Takes [] rest := alt_right fails rfl

theorem last (fits : a.Takes xs rest) : (all [a]).Takes xs rest := by
  have taken : (all [a]).Takes (xs ++ []) rest := .seq fits rfl
  rwa [List.append_nil] at taken

end Takes

/-- Parts that are taken whatever follows are taken one after the other, up to where none
fits. -/
theorem takes_many {parts : List (List Char)}
    (each : ∀ part ∈ parts, part ≠ [] ∧ ∀ following, a.Takes part following)
    (stop : a rest = none) : (many a).Takes parts.flatten rest := by
  suffices enough : ∀ fuel : List Char, parts.flatten.length ≤ fuel.length →
      (manyTo a fuel).Takes parts.flatten rest from
    enough (parts.flatten ++ rest) (by simp)
  induction parts with
  | nil =>
    intro fuel _
    cases fuel with
    | nil => rfl
    | cons _ fuel => simp [Takes, manyTo, stop]
  | cons part parts ih =>
    rw [List.forall_mem_cons] at each
    obtain ⟨⟨filled, fits⟩, each⟩ := each
    intro fuel enough
    obtain ⟨c, cs, rfl⟩ := List.exists_cons_of_ne_nil filled
    cases fuel with
    | nil => simp at enough
    | cons _ fuel =>
      have first := fits (parts.flatten ++ rest)
      have others := ih each fuel (by simp at enough ⊢; omega)
      rw [Takes, ← List.append_assoc] at first
      rw [Takes] at others
      simp only [Takes, List.flatten_cons, manyTo, first]
      simp [others]
      omega

/-! What a scan has taken, part by part -/

/-- In front of some rest the scan takes these characters. -/
def Makes (a : Scan) (cs : List Char) : Prop := ∃ text n, a text = some n ∧ cs = text.take n

namespace Makes

variable {cs : List Char}

theorem one (makes : (one p).Makes cs) : ∃ c, cs = [c] ∧ p c = true := by
  obtain ⟨text, n, taken, rfl⟩ := makes
  cases text with
  | nil => cases taken
  | cons c text =>
    rw [Scan.one] at taken
    split at taken
    · next fits =>
      obtain rfl := Option.some.inj taken
      exact ⟨c, rfl, fits⟩
    · cases taken

theorem run (makes : (run p).Makes cs) : ∀ c ∈ cs, p c = true := by
  obtain ⟨text, n, taken, rfl⟩ := makes
  obtain rfl := Option.some.inj taken
  have whole := List.prefix_iff_eq_take.1 (List.takeWhile_prefix (l := text) p)
  rw [← whole]
  exact List.all_eq_true.1 List.all_takeWhile

theorem text {s : String} (makes : (Scan.text s).Makes cs) : cs = s.toList := by
  obtain ⟨text, n, taken, rfl⟩ := makes
  obtain ⟨rest, drop, rfl⟩ := Option.map_eq_some_iff.1 taken
  rw [← append_of_dropStart? drop, ← String.length_toList, List.take_left]

theorem seq (makes : (seq a b).Makes cs) : ∃ xs ys, cs = xs ++ ys ∧ a.Makes xs ∧ b.Makes ys := by
  obtain ⟨text, n, taken, rfl⟩ := makes
  obtain ⟨i, first, more⟩ := Option.bind_eq_some_iff.1 taken
  obtain ⟨j, second, sum⟩ := Option.bind_eq_some_iff.1 more
  obtain rfl := Option.some.inj sum
  exact ⟨text.take i, (text.drop i).take j, List.take_add, ⟨text, i, first, rfl⟩,
    ⟨text.drop i, j, second, rfl⟩⟩

theorem many (makes : (many a).Makes cs) :
    ∃ parts : List (List Char), cs = parts.flatten ∧ ∀ part ∈ parts, a.Makes part := by
  obtain ⟨text, n, taken, rfl⟩ := makes
  suffices general : ∀ fuel text n, manyTo a fuel text = some n →
      ∃ parts : List (List Char), text.take n = parts.flatten ∧ ∀ part ∈ parts, a.Makes part from
    general text text n taken
  intro fuel
  induction fuel with
  | nil =>
    intro text n taken
    obtain rfl := Option.some.inj taken
    exact ⟨[], rfl, nofun⟩
  | cons _ fuel ih =>
    intro text n taken
    simp only [manyTo] at taken
    split at taken
    · obtain rfl := Option.some.inj taken
      exact ⟨[], rfl, nofun⟩
    · obtain rfl := Option.some.inj taken
      exact ⟨[], rfl, nofun⟩
    · next i _ first =>
      obtain ⟨j, others, rfl⟩ := Option.map_eq_some_iff.1 taken
      obtain ⟨parts, whole, each⟩ := ih (text.drop i) j others
      refine ⟨text.take i :: parts, ?_, List.forall_mem_cons.2 ⟨⟨text, i, first, rfl⟩, each⟩⟩
      rw [List.take_add, whole, List.flatten_cons]

end Makes

end CodeOutline.Syntax.Scan

namespace CodeOutline.Syntax

/-! ## Scans that end at a blank -/

/-- The text ends with a blank, and no backslash stands before it. -/
def EndsBlank (cs : List Char) : Prop :=
  ∃ front b, cs = front ++ [b] ∧ Scan.blank b = true ∧ front.getLast? ≠ some '\\'

theorem EndsBlank.ne_nil {cs : List Char} (ends : EndsBlank cs) : cs ≠ [] := by
  obtain ⟨front, b, rfl, -, -⟩ := ends
  simp

theorem EndsBlank.of_append {front cs : List Char} (ends : EndsBlank (front ++ cs))
    (some_ : cs ≠ []) : EndsBlank cs := by
  obtain ⟨all, b, whole, blank, free⟩ := ends
  obtain ⟨rest, c, rfl⟩ := (cs.eq_nil_or_concat).resolve_left some_
  rw [List.concat_eq_append, ← List.append_assoc] at whole
  obtain ⟨rfl, same⟩ := List.append_inj' whole rfl
  obtain rfl := (List.cons.inj same).1
  refine ⟨rest, c, List.concat_eq_append, blank, fun last => free ?_⟩
  rw [List.getLast?_append, last]
  rfl

namespace Scan

/-- In a text up to a blank the scan tells the same whatever follows, and does not take the
blank. -/
def Stays (a : Scan) : Prop :=
  ∀ cs, EndsBlank cs →
    (∀ more, a (cs ++ more) = none) ∨ ∃ n, n < cs.length ∧ ∀ more, a (cs ++ more) = some n

def Solid (p : Char → Bool) : Prop := ∀ c, blank c = true → p c = false

def blanks : List Char := [' ', '\t', '\n', '\r', '\x0b', '\x0c']

theorem mem_blanks {c : Char} (isBlank : blank c = true) : c ∈ blanks := by
  have code (n : Nat) (same : c.toNat = n) : c = Char.ofNat n := by
    rw [← same, Char.ofNat_toNat]
  simp only [blank, Bool.or_eq_true, beq_iff_eq] at isBlank
  rcases isBlank with ((((rfl | rfl) | rfl) | rfl) | same) | same
  · simp [blanks]
  · simp [blanks]
  · simp [blanks]
  · simp [blanks]
  · rw [code 11 same]
    simp [blanks]
  · rw [code 12 same]
    simp [blanks]

theorem solid_of_all {p : Char → Bool} (none_ : blanks.all (fun c => !p c) = true) : Solid p :=
  fun c isBlank => by simpa using List.all_eq_true.1 none_ c (mem_blanks isBlank)

namespace Stays

variable {a b : Scan} {p : Char → Bool}

theorem one (solid : Solid p) : (one p).Stays := by
  intro cs ends
  obtain ⟨front, d, rfl, blankD, -⟩ := ends
  cases front with
  | nil => exact .inl fun more => by simp [Scan.one, solid d blankD]
  | cons c front =>
    by_cases fits : p c = true
    · exact .inr ⟨1, by simp, fun more => by simp [Scan.one, fits]⟩
    · exact .inl fun more => by simp [Scan.one, fits]

theorem takeWhile (solid : Solid p) {cs : List Char} (ends : EndsBlank cs) :
    ∃ n, n < cs.length ∧ ∀ more, ((cs ++ more).takeWhile p).length = n := by
  obtain ⟨front, d, rfl, blankD, -⟩ := ends
  induction front with
  | nil => exact ⟨0, by simp, fun more => by simp [solid d blankD]⟩
  | cons c front ih =>
    by_cases fits : p c = true
    · obtain ⟨n, less, same⟩ := ih
      refine ⟨n + 1, ?_, fun more => ?_⟩
      · rw [List.cons_append, List.length_cons]
        omega
      · rw [List.cons_append, List.cons_append, List.takeWhile_cons_of_pos fits, List.length_cons,
          same]
    · refine ⟨0, by simp, fun more => ?_⟩
      rw [List.cons_append, List.cons_append, List.takeWhile_cons_of_neg fits]
      rfl

theorem run (solid : Solid p) : (run p).Stays := by
  intro cs ends
  obtain ⟨n, less, same⟩ := takeWhile solid ends
  exact .inr ⟨n, less, fun more => by rw [Scan.run, same]⟩

theorem run1 (solid : Solid p) : (run1 p).Stays := by
  intro cs ends
  obtain ⟨n, less, same⟩ := takeWhile solid ends
  cases n with
  | zero => exact .inl fun more => by rw [Scan.run1, same]; rfl
  | succ n => exact .inr ⟨n + 1, less, fun more => by rw [Scan.run1, same]; rfl⟩

theorem dropStart? {start cs : List Char} (letters : start.all (fun c => !blank c) = true)
    (ends : EndsBlank cs) :
    (∀ more, Text.dropStart? start (cs ++ more) = none) ∨
      ∃ rest, rest ≠ [] ∧ cs = start ++ rest ∧
        ∀ more, Text.dropStart? start (cs ++ more) = some (rest ++ more) := by
  have solid : ∀ c ∈ start, blank c = false := by simpa using letters
  clear letters
  obtain ⟨front, d, rfl, blankD, -⟩ := ends
  induction start generalizing front with
  | nil => exact .inr ⟨front ++ [d], by simp, rfl, fun more => rfl⟩
  | cons s start ih =>
    rw [List.forall_mem_cons] at solid
    cases front with
    | nil =>
      refine .inl fun more => ?_
      have other : s ≠ d := by
        rintro rfl
        rw [solid.1] at blankD
        cases blankD
      simp [Text.dropStart?, other]
    | cons c front =>
      by_cases same : s = c
      · subst same
        rcases ih solid.2 front with fails | ⟨rest, some_, whole, fits⟩
        · refine .inl fun more => ?_
          rw [List.cons_append, List.cons_append, Text.dropStart?, if_pos rfl, fails]
        · refine .inr ⟨rest, some_, ?_, fun more => ?_⟩
          · rw [List.cons_append, whole, List.cons_append]
          · rw [List.cons_append, List.cons_append, Text.dropStart?, if_pos rfl, fits]
      · exact .inl fun more => by simp [Text.dropStart?, same]

theorem text {s : String} (letters : s.toList.all (fun c => !blank c) = true) :
    (text s).Stays := by
  intro cs ends
  rcases dropStart? letters ends with fails | ⟨rest, some_, whole, fits⟩
  · exact .inl fun more => by rw [Scan.text, fails]; rfl
  · refine .inr ⟨s.length, ?_, fun more => by rw [Scan.text, fits]; rfl⟩
    have present := List.length_pos_iff.2 some_
    rw [whole, List.length_append, String.length_toList]
    omega

theorem nothing : Scan.Stays (fun _ => some 0) :=
  fun _ ends => .inr ⟨0, List.length_pos_iff.2 ends.ne_nil, fun _ => rfl⟩

theorem never : Scan.Stays (fun _ => none) := fun _ _ => .inl fun _ => rfl

theorem drop {cs : List Char} {n : Nat} (ends : EndsBlank cs) (less : n < cs.length) :
    EndsBlank (cs.drop n) := by
  rw [← List.take_append_drop n cs] at ends
  refine ends.of_append ?_
  rw [Ne, List.drop_eq_nil_iff]
  omega

theorem seq (first : a.Stays) (second : b.Stays) : (seq a b).Stays := by
  intro cs ends
  rcases first cs ends with fails | ⟨n, less, fits⟩
  · exact .inl fun more => by simp [Scan.seq, fails]
  · have behind (more : List Char) : (cs ++ more).drop n = cs.drop n ++ more :=
      List.drop_append_of_le_length (Nat.le_of_lt less)
    rcases second _ (drop ends less) with fails | ⟨m, less', fits'⟩
    · exact .inl fun more => by simp [Scan.seq, fits, behind, fails]
    · refine .inr ⟨n + m, ?_, fun more => by simp [Scan.seq, fits, behind, fits']⟩
      rw [List.length_drop] at less'
      omega

theorem alt (first : a.Stays) (second : b.Stays) : (alt a b).Stays := by
  intro cs ends
  rcases first cs ends with fails | ⟨n, less, fits⟩
  · rcases second cs ends with fails' | ⟨m, less', fits'⟩
    · exact .inl fun more => by simp [Scan.alt, fails, fails']
    · exact .inr ⟨m, less', fun more => by simp [Scan.alt, fails, fits']⟩
  · exact .inr ⟨n, less, fun more => by simp [Scan.alt, fits]⟩

theorem opt (inner : a.Stays) : (Scan.opt a).Stays := alt inner nothing

theorem such (p : List Char → Bool) (inner : a.Stays) : (such p a).Stays := by
  intro cs ends
  rcases inner cs ends with fails | ⟨n, less, fits⟩
  · exact .inl fun more => by simp [Scan.such, fails]
  · have taken (more : List Char) : (cs ++ more).take n = cs.take n :=
      List.take_append_of_le_length (Nat.le_of_lt less)
    by_cases holds : p (cs.take n) = true
    · exact .inr ⟨n, less, fun more => by simp [Scan.such, fits, taken, holds]⟩
    · exact .inl fun more => by simp [Scan.such, fits, taken, holds]

/-- Every time at least one character before the blank is taken, so it is taken as often whatever
bounds how often. -/
theorem many (inner : a.Stays) : (many a).Stays := by
  suffices enough : ∀ k cs, cs.length ≤ k → EndsBlank cs → ∃ n, n < cs.length ∧
      ∀ fuel more : List Char, k ≤ fuel.length → manyTo a fuel (cs ++ more) = some n by
    intro cs ends
    obtain ⟨n, less, same⟩ := enough cs.length cs (Nat.le_refl _) ends
    exact .inr ⟨n, less, fun more => same _ more (by simp)⟩
  intro k
  induction k with
  | zero =>
    intro cs short ends
    have present := List.length_pos_iff.2 ends.ne_nil
    omega
  | succ k ih =>
    intro cs short ends
    have present := List.length_pos_iff.2 ends.ne_nil
    rcases inner cs ends with fails | ⟨n, less, fits⟩
    · refine ⟨0, present, fun fuel more enough => ?_⟩
      cases fuel with
      | nil => rfl
      | cons _ fuel => simp [manyTo, fails]
    · cases n with
      | zero =>
        refine ⟨0, present, fun fuel more enough => ?_⟩
        cases fuel with
        | nil => rfl
        | cons _ fuel => simp [manyTo, fits]
      | succ n =>
        have shorter : (cs.drop (n + 1)).length ≤ k := by
          rw [List.length_drop]
          omega
        obtain ⟨m, less', same⟩ := ih _ shorter (drop ends less)
        refine ⟨n + 1 + m, ?_, fun fuel more enough => ?_⟩
        · rw [List.length_drop] at less'
          omega
        · cases fuel with
          | nil => simp at enough
          | cons _ fuel =>
            have behind : (cs ++ more).drop (n + 1) = cs.drop (n + 1) ++ more :=
              List.drop_append_of_le_length (Nat.le_of_lt less)
            have rest := same fuel more (by simpa using enough)
            simp only [manyTo, fits]
            rw [behind, rest]
            rfl

theorem all {list : List Scan} (each : ∀ a ∈ list, a.Stays) : (all list).Stays := by
  induction list with
  | nil => exact nothing
  | cons a list ih =>
    rw [List.forall_mem_cons] at each
    exact seq each.1 (ih each.2)

theorem first {list : List Scan} (each : ∀ a ∈ list, a.Stays) : (first list).Stays := by
  induction list with
  | nil => exact never
  | cons a list ih =>
    rw [List.forall_mem_cons] at each
    exact alt each.1 (ih each.2)

end Stays

theorem kind_of_between {comments : List (String × Scan)} {cs : List Char} {n : Nat}
    {kind : String} (found : between comments cs = some (n, some kind)) :
    kind ∈ comments.map (·.1) := by
  unfold between at found
  split at found
  · cases found
  · split at found
    · cases found
    · obtain ⟨comment, among, fits⟩ := List.exists_of_findSome?_eq_some found
      obtain ⟨length, -, same⟩ := Option.map_eq_some_iff.1 fits
      cases same
      exact List.mem_map_of_mem among

end Scan

end CodeOutline.Syntax
