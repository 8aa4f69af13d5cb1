import CodeOutline.Proofs.Json.Values
import CodeOutline.Proofs.Syntax.Judging

/-!
Values with a plus sign in an exponent. The grammar takes such a number up to the letter of its
exponent, where nothing else can stand, so that no container around it comes to its end and no
document with it is read.
-/

set_option autoImplicit false

namespace CodeOutline.Analysis.Json

open Syntax Grammar.Json

variable {c : Container} {text rest : List Char} {v : Source} {n m : Nat} {a b : Rule Name}

def Gap.empty : Gap := ⟨[], nofun⟩

/-! Where a container would have to end -/

def Blocks (c : Container) (text : List Char) : Prop :=
  ∃ (gap : Gap) (tail : List Char), text = gap.chars ++ tail ∧ Scan.StopsAt opensGap tail ∧
    tail.head? ≠ some c.closing

theorem Blocks.stops_closing (blocks : Blocks c text) :
    grammar.Stops 1 (.sign c.closeSign) text := by
  obtain ⟨gap, tail, rfl, stops, other⟩ := blocks
  refine .of_fails (fun before => (gap.skips stops).fails_sign ?_ ?_ before) 1
  · rw [c.closeSign_toList]
    exact fun same => other same.symm
  · cases c <;> decide

theorem opensValue_closing (c : Container) : opensValue c.closing = false := by
  cases c <;> decide

theorem opensGap_of_opensValue {d : Char} (opens : opensValue d = true) : opensGap d = false := by
  obtain ⟨a, listed, begins⟩ := List.any_eq_true.1 opens
  exact Alternative.opensGap_of_mem listed (List.contains_iff_mem.1 begins)

theorem blocks_of_opensValue (c : Container) (gap : Gap) {first : Char}
    (opens : opensValue first = true) (more : List Char) :
    Blocks c (gap.chars ++ first :: more) := by
  refine ⟨gap, first :: more, rfl, Scan.stopsAt_cons (opensGap_of_opensValue opens) more, ?_⟩
  rw [List.head?_cons, ne_eq, Option.some.injEq]
  rintro rfl
  rw [opensValue_closing] at opens
  cases opens

/-! The letter of an exponent -/

def IsPower (text : List Char) : Prop :=
  ∃ letter more, (letter = 'e' ∨ letter = 'E') ∧ text = letter :: more

namespace IsPower

theorem stopsAt (power : IsPower text) {p : Char → Bool} (small : p 'e' = false)
    (capital : p 'E' = false) : Scan.StopsAt p text := by
  obtain ⟨letter, more, rfl | rfl, rfl⟩ := power
  · exact Scan.stopsAt_cons small more
  · exact Scan.stopsAt_cons capital more

theorem head?_ne (power : IsPower text) {d : Char} (small : d ≠ 'e') (capital : d ≠ 'E') :
    text.head? ≠ some d := by
  obtain ⟨letter, more, rfl | rfl, rfl⟩ := power
  · simpa using small.symm
  · simpa using capital.symm

theorem skips (power : IsPower text) : grammar.Skips [] text :=
  Gap.skips .empty (power.stopsAt (by decide) (by decide))

theorem blocks (power : IsPower text) (c : Container) : Blocks c text :=
  ⟨.empty, text, rfl, power.stopsAt (by decide) (by decide),
    power.head?_ne (by cases c <;> decide) (by cases c <;> decide)⟩

theorem stops_value (power : IsPower text) : grammar.Stops 1 (.call .value) text :=
  .of_fails (value_fails .empty (power.stopsAt (by decide) (by decide))
    (power.stopsAt (by decide) (by decide))) 1

theorem stops_comma (power : IsPower text) (a : Rule Name) :
    grammar.Stops 1 (.seq (.sign ",") a) text := by
  refine .of_fails (fun before => .seq (power.skips.fails_sign ?_ (by decide) before)) 1
  exact fun same => power.head?_ne (by decide : ',' ≠ 'e') (by decide) same.symm

end IsPower

theorem not_isPower (gap : Gap) {first : Char} (opens : opensValue first = true)
    (more : List Char) : ¬ IsPower (gap.chars ++ first :: more) := by
  intro power
  cases chars : gap.chars with
  | nil =>
    rw [chars, List.nil_append] at power
    rw [power.stopsAt (p := opensValue) (by decide) (by decide) first rfl] at opens
    cases opens
  | cons d ds =>
    rw [chars, List.cons_append] at power
    have blank := gap.blank d (by rw [chars]; exact List.mem_cons_self)
    rw [power.stopsAt (p := Scan.blank) (by decide) (by decide) d rfl] at blank
    cases blank

/-! Rules that do not come to their end -/

def Falters (n : Nat) (a : Rule Name) (text : List Char) : Prop :=
  grammar.Stops n a text ∨ ∃ power, IsPower power ∧ grammar.Leaves n a text power

namespace Falters

theorem mono (falters : Falters n a text) (more : n ≤ m) : Falters m a text := by
  rcases falters with stops | ⟨power, isPower, leaves⟩
  · exact .inl (stops.mono more)
  · exact .inr ⟨power, isPower, leaves.mono more⟩

theorem field (name : String) (falters : Falters n a text) :
    Falters (n + 1) (.field name a) text := by
  rcases falters with stops | ⟨power, isPower, leaves⟩
  · exact .inl stops.field
  · exact .inr ⟨power, isPower, leaves.field⟩

theorem node (kind : String) (falters : Falters n a text) :
    Falters (n + 1) (.node kind a) text := by
  rcases falters with stops | ⟨power, isPower, leaves⟩
  · exact .inl stops.node
  · exact .inr ⟨power, isPower, leaves.node⟩

theorem behind (first : grammar.Leaves n a text rest) (falters : Falters m b rest) :
    Falters (max n m + 1) (.seq a b) text := by
  rcases falters with stops | ⟨power, isPower, leaves⟩
  · exact .inl (.seq_right first stops)
  · exact .inr ⟨power, isPower, first.seq leaves⟩

end Falters

/-! Values -/

def ValueFalters (v : Source) : Prop := ∀ (gap : Gap) (rest : List Char),
  Falters (64 * v.chars.length) (.call .value) (gap.chars ++ (v.chars ++ rest))

theorem Source.opens (v : Source) :
    ∃ first more, v.chars = first :: more ∧ opensValue first = true := by
  have opens {a : Alternative} (listed : a ∈ Alternative.all) {first : Char}
      (begins : first ∈ a.begins) : opensValue first = true :=
    List.any_eq_true.2 ⟨a, listed, List.contains_iff_mem.2 begins⟩
  cases v with
  | scalar s =>
    cases s with
    | string letters => exact ⟨'"', _, rfl, by decide⟩
    | number n =>
      obtain ⟨first, more, chars, begins⟩ := n.chars_cons
      exact ⟨first, more, chars, opens Alternative.number_mem begins⟩
    | truth value => cases value with
      | true => exact ⟨'t', _, rfl, by decide⟩
      | false => exact ⟨'f', _, rfl, by decide⟩
    | null => exact ⟨'n', _, rfl, by decide⟩
  | empty c gap =>
    exact ⟨c.opening, _, rfl, opens (Alternative.bracket_mem c) (List.mem_singleton_self _)⟩
  | filled c items =>
    exact ⟨c.opening, _, rfl, opens (Alternative.bracket_mem c) (List.mem_singleton_self _)⟩

theorem scalar_falters {s : Scalar} (plus : s.hasPlus = true) : ValueFalters (.scalar s) := by
  intro gap rest
  cases s with
  | string | truth | null => cases plus
  | number number =>
    obtain ⟨letter, following, isLetter, source, taken⟩ := number.front_taken_of_hasPlus plus rest
    obtain ⟨first, more, front, begins⟩ := number.front_cons
    rw [front] at source taken
    have positive : 1 ≤ number.chars.length := by
      obtain ⟨_, _, chars, -⟩ := number.chars_cons
      simp [chars]
    refine .inr ⟨letter :: following, ⟨letter, following, isLetter, rfl⟩, ?_⟩
    show grammar.Leaves _ (.call .value) (gap.chars ++ (number.chars ++ rest)) _
    rw [source, ← List.append_assoc]
    refine .mono (.of_reads fun before => ⟨[.around "number" true (before ++ gap.chars)
      (first :: more) (letter :: following) []], ?_⟩)
      (show 9 ≤ _ by rw [Source.chars, Scalar.chars]; omega)
    rw [List.append_assoc, ← List.append_assoc before]
    exact Alternative.reads_leaf Alternative.number_mem rfl begins taken gap before

/-! Values behind their labels -/

theorem element_opens (label : c.Label) (v : Source) (rest : List Char) :
    ∃ first more, c.labelChars label ++ (v.chars ++ rest) = first :: more ∧
      opensValue first = true := by
  cases c with
  | object => exact ⟨'"', _, rfl, by decide⟩
  | array =>
    obtain ⟨first, more, chars, opens⟩ := v.opens
    exact ⟨first, more ++ rest, by rw [chars]; rfl, opens⟩

theorem element_falters (value : ValueFalters v) (label : c.Label) (gap : Gap)
    (rest : List Char) :
    Falters (64 * ((c.labelChars label).length + v.chars.length)) c.element
      (gap.chars ++ (c.labelChars label ++ (v.chars ++ rest))) := by
  cases c with
  | array => exact (value gap rest).mono (by simp [Container.labelChars])
  | object =>
    obtain ⟨letters, behind, front⟩ : Key := label
    have keySkips : grammar.Skips gap.chars (quoted letters ++ (behind.chars ++ (":".toList ++
        (front.chars ++ (v.chars ++ rest))))) := gap.skips (Scan.stopsAt_cons (by decide) _)
    have key : grammar.Leaves 2 (.field "key" string) _ _ :=
      (keySkips.leaves_leaf (takes_quoted letters _)).field
    have colon : grammar.Leaves 1 (.sign ":") (behind.chars ++ (":".toList ++ (front.chars ++
        (v.chars ++ rest)))) (front.chars ++ (v.chars ++ rest)) :=
      (behind.skips (Scan.stopsAt_cons (by decide) _)).leaves_sign
    have pair := (((value front rest).field "value").behind colon).behind key
    have source : gap.chars ++ (quoted letters ++ (behind.chars ++ (":".toList ++ (front.chars ++
        (v.chars ++ rest))))) = gap.chars ++ (Container.object.labelChars
          ⟨letters, behind, front⟩ ++ (v.chars ++ rest)) := by
      simp [Container.labelChars]
    rw [source] at pair
    refine (pair.node "pair").mono ?_
    have positive : 1 ≤ (Container.object.labelChars ⟨letters, behind, front⟩).length :=
      List.length_pos_iff.2 (List.cons_ne_nil _ _)
    omega

/-! Values between the brackets of a container -/

def ListFalters (n : Nat) (c : Container) (text : List Char) : Prop :=
  grammar.Stops n c.element text ∨ ∃ next left, grammar.Leaves n c.element text next ∧
    grammar.Leaves (n + 1) (.many (.seq (.sign ",") c.element)) next left ∧ Blocks c left

theorem Falters.list (falters : Falters n c.element text) (positive : 1 ≤ n) :
    ListFalters n c text := by
  rcases falters with stops | ⟨power, isPower, leaves⟩
  · exact .inl stops
  · exact .inr ⟨power, power, leaves, (Grammar.Leaves.many_stays
      (isPower.stops_comma c.element)).mono (by omega), isPower.blocks c⟩

def ItemsFalter (items : Items c) : Prop :=
  ∀ rest : List Char, ListFalters (64 * items.chars.length) c (items.chars ++ rest)

theorem first_falters (value : ValueFalters v) (gap : Gap) (label : c.Label)
    (rest : List Char) {n : Nat} (short : (c.labelChars label).length + v.chars.length ≤ n) :
    ListFalters (64 * n) c (gap.chars ++ (c.labelChars label ++ (v.chars ++ rest))) := by
  have positive := List.length_pos_iff.2 v.chars_ne_nil
  exact ((element_falters value label gap rest).mono (by omega)).list (by omega)

theorem later_falters (plain : v.hasPlus = false) (gap : Gap) (label : c.Label) (behind : Gap)
    {others : Items c} (falter : ItemsFalter others) :
    ItemsFalter (.more gap label v behind others) := by
  intro rest
  have stops := behind.stopsAt_continues
    (Scan.stopsAt_cons (by decide : continues ',' = false) (others.chars ++ rest))
  have length : (Items.more gap label v behind others).chars.length = gap.chars.length +
      ((c.labelChars label).length + (v.chars.length + (behind.chars.length +
        (others.chars.length + 1)))) := by
    simp only [Items.chars, List.length_append, List.length_cons]
  have source : (Items.more gap label v behind others).chars ++ rest =
      gap.chars ++ (c.labelChars label ++ v.chars) ++
        (behind.chars ++ (",".toList ++ (others.chars ++ rest))) := by
    simp [Items.chars]
  have element : grammar.Leaves (64 * ((c.labelChars label).length + v.chars.length)) c.element
      ((Items.more gap label v behind others).chars ++ rest)
      (behind.chars ++ (",".toList ++ (others.chars ++ rest))) := by
    rw [source]
    refine .of_reads fun before => ?_
    obtain ⟨x, -, reads⟩ := item_read (v.read plain) label before gap stops
    exact ⟨[x], by simpa using reads⟩
  have skips : grammar.Skips behind.chars (",".toList ++ (others.chars ++ rest)) :=
    behind.skips (Scan.stopsAt_cons (by decide) _)
  have comma := skips.leaves_sign
  refine .inr ⟨behind.chars ++ (",".toList ++ (others.chars ++ rest)), ?_⟩
  rcases falter rest with fails | ⟨next, left, first, more, blocks⟩
  · refine ⟨_, element.mono (by omega), (Grammar.Leaves.many_stays (.seq_right comma fails)).mono
      (by omega), behind, _, rfl, Scan.stopsAt_cons (by decide) _, ?_⟩
    exact fun same => c.closing_ne_comma (Option.some.inj same).symm
  · have moves : behind.chars ++ (",".toList ++ (others.chars ++ rest)) ≠ next := by
      rintro rfl
      have shorter := first.length_le
      simp only [List.length_append, String.length_toList] at shorter
      have one : ",".length = 1 := rfl
      omega
    exact ⟨left, element.mono (by omega), ((comma.seq first).many_more moves more).mono (by omega),
      blocks⟩

/-! Containers -/

theorem Items.blocks (items : Items c) (rest : List Char) : Blocks c (items.chars ++ rest) := by
  cases items with
  | last gap label value behind =>
    obtain ⟨first, more, chars, opens⟩ := element_opens label value (behind.chars ++ rest)
    have blocks := blocks_of_opensValue c gap opens more
    rw [← chars] at blocks
    simpa [Items.chars] using blocks
  | more gap label value behind others =>
    obtain ⟨first, more, chars, opens⟩ :=
      element_opens label value (behind.chars ++ ',' :: (others.chars ++ rest))
    have blocks := blocks_of_opensValue c gap opens more
    rw [← chars] at blocks
    simpa [Items.chars] using blocks

theorem Alternative.eq_bracket_or (c : Container) {b : Alternative} (listed : b ∈ all) :
    b = bracket c ∨ ∀ d ∈ b.begins, d ≠ c.opening := by
  simp only [all, List.mem_cons, List.not_mem_nil, or_false] at listed
  rcases listed with rfl | rfl | rfl | rfl | rfl | rfl | rfl <;> cases c <;>
    first | exact .inl rfl | exact .inr (List.forall_mem_ne'.2 (by decide))

theorem bracket_stops (gap : Gap) {cs : List Char} {n : Nat}
    (stops : grammar.Stops n c.rule (gap.chars ++ c.opening :: cs)) :
    grammar.Stops (n + 8) (.call .value) (gap.chars ++ c.opening :: cs) := by
  have opens := Alternative.opensGap_of_mem (Alternative.bracket_mem c) (List.mem_singleton_self _)
  have length : (Alternative.all.map (·.rule)).length = 7 := rfl
  refine .mono (.call (rules_value ▸ .choice fun rule member => ?_))
    (show n + (Alternative.all.map (·.rule)).length + 1 ≤ _ by omega)
  obtain ⟨b, listed, rfl⟩ := List.mem_map.1 member
  rcases Alternative.eq_bracket_or c listed with rfl | other
  · exact stops
  · refine .of_fails (b.fails listed gap (Scan.stopsAt_cons opens cs) fun d begins head => ?_) n
    exact other d begins (Option.some.inj head).symm

theorem filled_falters {items : Items c} (falter : ItemsFalter items) :
    ValueFalters (.filled c items) := by
  intro gap rest
  left
  have source : (Source.filled c items).chars ++ rest =
      c.opening :: (items.chars ++ c.closing :: rest) := by simp [Source.chars]
  have length : (Source.filled c items).chars.length = items.chars.length + 2 := by
    simp [Source.chars]
  have openSkips : grammar.Skips gap.chars
      (c.openSign.toList ++ (items.chars ++ c.closing :: rest)) := by
    rw [c.openSign_toList]
    exact gap.skips (Scan.stopsAt_cons (by cases c <;> decide) _)
  have opens := openSkips.leaves_sign
  rw [c.openSign_toList, List.singleton_append] at opens
  have inside : ∃ left, grammar.Leaves (64 * items.chars.length + 5) (Rule.commas0 c.element)
      (items.chars ++ c.closing :: rest) left ∧ Blocks c left := by
    rcases falter (c.closing :: rest) with fails | ⟨next, left, first, more, blocks⟩
    · exact ⟨_, (Grammar.Leaves.opt_stays (.seq_left fails)).mono (by omega), items.blocks _⟩
    · exact ⟨left, (first.seq more).opt.mono (by omega), blocks⟩
  obtain ⟨left, list, blocks⟩ := inside
  rw [source]
  refine (bracket_stops gap (.node
    (.seq_right opens (.seq_right list blocks.stops_closing)))).mono ?_
  omega

mutual

theorem Source.falters : (v : Source) → v.hasPlus = true → ValueFalters v
  | .scalar _, plus => scalar_falters plus
  | .empty _ _, plus => Bool.noConfusion plus
  | .filled _ items, plus => filled_falters (items.falters plus)

theorem Items.falters {c : Container} : (items : Items c) → items.hasPlus = true →
    ItemsFalter items
  | .last gap label value behind, plus => by
    intro rest
    have first := first_falters (value.falters plus) gap label (behind.chars ++ rest)
      (n := (Items.last gap label value behind).chars.length) (by simp [Items.chars]; omega)
    simpa [Items.chars] using first
  | .more gap label value behind others, plus => by
    cases here : value.hasPlus with
    | true =>
      intro rest
      have first := first_falters (value.falters here) gap label
        (behind.chars ++ ',' :: (others.chars ++ rest))
        (n := (Items.more gap label value behind others).chars.length)
        (by simp [Items.chars]; omega)
      simpa [Items.chars] using first
    | false =>
      rw [Items.hasPlus, here, Bool.false_or] at plus
      exact later_falters here gap label behind (others.falters plus)

end

theorem read?_eq_none_of_hasPlus (lead tail : Gap) {v : Source} (plus : v.hasPlus = true) :
    Grammar.Json.read? (lead.chars ++ v.chars ++ tail.chars) = none := by
  obtain ⟨first, more, chars, opens⟩ := v.opens
  have source : v.chars ++ tail.chars = first :: (more ++ tail.chars) := by rw [chars]; rfl
  have short : 64 * v.chars.length + 3 ≤
      Grammar.depthLimit (lead.chars ++ (v.chars ++ tail.chars)).length := by
    simp only [Grammar.depthLimit, List.length_append]
    omega
  rw [List.append_assoc]
  rcases v.falters plus lead tail.chars with stops | ⟨power, isPower, leaves⟩
  · have skips := lead.skips (Scan.stopsAt_cons (opensGap_of_opensValue opens) (more ++ tail.chars))
    rw [← source] at skips
    exact Grammar.read?_eq_none "document" (.many_stays stops) (by omega) skips (by simp [source])
  · have moves : lead.chars ++ (v.chars ++ tail.chars) ≠ power := by
      rintro rfl
      rw [source] at isPower
      exact not_isPower lead opens _ isPower
    obtain ⟨letter, following, -, written⟩ := id isPower
    exact Grammar.read?_eq_none "document"
      (leaves.many_more moves (.many_stays isPower.stops_value)) (by omega) isPower.skips
      (by simp [written])

end CodeOutline.Analysis.Json
