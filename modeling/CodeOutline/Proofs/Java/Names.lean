import CodeOutline.Proofs.Java.Arrays
import CodeOutline.Proofs.Java.Pieces
import CodeOutline.Proofs.Syntax.Depth

/-!
The names in a Java document that can be read: those of declared types are words, and that of the
package is made of words with dots between them, however many blanks and comments stand around
these.
-/

set_option autoImplicit false

namespace CodeOutline.Grammar.Java

open Syntax

variable {c : Char} {gap piece rest : List Char} {kind : Option String}

/-! What is passed over in front of a token -/

theorem gapTo_eq {fuel fuel' cs : List Char} (enough : cs.length ≤ fuel.length)
    (enough' : cs.length ≤ fuel'.length) : grammar.gapTo fuel cs = grammar.gapTo fuel' cs := by
  have ended (fuel : List Char) : grammar.gapTo fuel [] = 0 := by
    cases fuel <;> rfl
  induction fuel generalizing fuel' cs with
  | nil =>
    obtain rfl := List.length_eq_zero_iff.1 (Nat.le_zero.1 enough)
    rw [ended, ended]
  | cons f fuel ih =>
    cases cs with
    | nil => rw [ended, ended]
    | cons d ds =>
      cases fuel' with
      | nil => simp at enough'
      | cons f' fuel' =>
        simp only [List.length_cons, Nat.succ_le_succ_iff] at enough enough'
        simp only [Grammar.gapTo]
        split
        · rfl
        · rfl
        · next n _ _ =>
          have shorter : (ds.drop n).length ≤ ds.length := by
            rw [List.length_drop]
            omega
          simp only [List.drop_succ_cons]
          rw [ih (shorter.trans enough) (shorter.trans enough')]

theorem gap_append (passed : grammar.between 0 (piece ++ rest) = some (piece.length, kind))
    (filled : piece ≠ []) : grammar.gap (piece ++ rest) = piece.length + grammar.gap rest := by
  cases piece with
  | nil => exact absurd rfl filled
  | cons d ds =>
    rw [List.cons_append] at passed ⊢
    rw [Grammar.gap, Grammar.gapTo, passed]
    simp only [List.length_cons, List.drop_succ_cons, List.drop_left, Grammar.gap]
    have enough : rest.length ≤ (ds ++ rest).length := by simp
    rw [gapTo_eq enough (Nat.le_refl _)]

theorem stops_of_length_takeWhile {p : Char → Bool} {d : Char} {ds : List Char}
    (run : ((piece ++ d :: ds).takeWhile p).length = piece.length) :
    (∀ x ∈ piece, p x = true) ∧ p d = false := by
  have whole : (piece ++ d :: ds).takeWhile p = piece := by
    rw [List.prefix_iff_eq_take.1 (List.takeWhile_prefix p), run, List.take_left]
  have all : ∀ x ∈ piece, p x = true := by
    rw [← whole]
    exact List.all_eq_true.1 List.all_takeWhile
  refine ⟨all, ?_⟩
  cases fits : p d with
  | false => rfl
  | true =>
    rw [List.takeWhile_append_of_pos all, List.takeWhile_cons_of_pos fits] at whole
    simp at whole

theorem cutFirst?_local {needle before after : List Char}
    (cut : Text.cutFirst? needle (before ++ needle ++ after) = some (before, after))
    (others : List Char) :
    Text.cutFirst? needle (before ++ needle ++ others) = some (before, others) := by
  have inside : needle <:+: before ++ needle := ⟨before, [], List.append_nil _⟩
  obtain ⟨front, back, found⟩ := Text.exists_cutFirst? inside
  have first := Text.cutFirst?_append_of_some found after
  rw [cut] at first
  obtain ⟨rfl, same⟩ := Prod.mk.inj (Option.some.inj first)
  obtain rfl : back = [] := by simpa using same
  exact Text.cutFirst?_append_of_some found others

section Pieces

variable {d d' : Char} {ds : List Char}

theorem exists_of_append {front body : List Char} (whole : piece ++ rest = front ++ body)
    (enough : front.length ≤ piece.length) : ∃ b, piece = front ++ b ∧ body = b ++ rest := by
  obtain ⟨b, rfl⟩ : front <+: piece :=
    List.prefix_of_prefix_length_le ⟨body, whole.symm⟩ (List.prefix_append _ _) enough
  rw [List.append_assoc] at whole
  exact ⟨b, rfl, (List.append_cancel_left whole).symm⟩

theorem slashComment_cons (cs : List Char) :
    Scan.slashComment ('/' :: '/' :: cs) = some (2 + (cs.takeWhile Scan.notNewline).length) := rfl

theorem slashComment_local (fits : Scan.slashComment (piece ++ d :: ds) = some piece.length)
    (alike : d' = d ∨ isOpening d = true) (ds' : List Char) :
    Scan.slashComment (piece ++ d' :: ds') = some piece.length := by
  obtain ⟨n, begins, more⟩ := Option.bind_eq_some_iff.1 fits
  obtain ⟨body, drop, rfl⟩ := Option.map_eq_some_iff.1 begins
  have long : "//".toList.length ≤ piece.length := by
    obtain ⟨m, -, sum⟩ := Option.bind_eq_some_iff.1 more
    have same := Option.some.inj sum
    have two : "//".toList.length = "//".length := rfl
    omega
  obtain ⟨b, rfl, rfl⟩ := exists_of_append (Scan.append_of_dropStart? drop).symm long
  have two : "//".toList = ['/', '/'] := by decide
  simp only [two, List.cons_append, List.nil_append, slashComment_cons, List.length_cons,
    Option.some.injEq] at fits ⊢
  have run : ((b ++ d :: ds).takeWhile Scan.notNewline).length = b.length := by omega
  obtain ⟨all, stops⟩ := stops_of_length_takeWhile run
  have stops' : Scan.notNewline d' = false := by
    rcases alike with rfl | opening
    · exact stops
    · obtain rfl : d = '\n' := by simpa [Scan.notNewline] using stops
      cases opening
  have whole : (b ++ d' :: ds').takeWhile Scan.notNewline = b :=
    Scan.takeWhile_append_of_stopsAt all (Scan.stopsAt_cons stops' ds')
  rw [whole]
  omega

theorem blockComment_cons (cs : List Char) : Scan.blockComment ('/' :: '*' :: cs) =
    (Text.cutFirst? ['*', '/'] cs).map (fun parts => 2 + (parts.1.length + 2)) := by
  have behind : Scan.blockComment ('/' :: '*' :: cs) =
      ((Text.cutFirst? ['*', '/'] cs).map (fun parts => parts.1.length + 2)).bind
        (fun n => some (2 + n)) := rfl
  rw [behind]
  cases Text.cutFirst? ['*', '/'] cs <;> rfl

theorem blockComment_local (fits : Scan.blockComment (piece ++ rest) = some piece.length)
    (others : List Char) : Scan.slashComment (piece ++ others) = none ∧
      Scan.blockComment (piece ++ others) = some piece.length := by
  obtain ⟨n, begins, more⟩ := Option.bind_eq_some_iff.1 fits
  obtain ⟨body, drop, rfl⟩ := Option.map_eq_some_iff.1 begins
  have long : "/*".toList.length ≤ piece.length := by
    obtain ⟨m, -, sum⟩ := Option.bind_eq_some_iff.1 more
    have same := Option.some.inj sum
    have two : "/*".toList.length = "/*".length := rfl
    omega
  obtain ⟨b, rfl, rfl⟩ := exists_of_append (Scan.append_of_dropStart? drop).symm long
  have two : "/*".toList = ['/', '*'] := by decide
  simp only [two, List.cons_append, List.nil_append, blockComment_cons, List.length_cons] at fits ⊢
  refine ⟨rfl, ?_⟩
  obtain ⟨⟨before, after⟩, cut, length⟩ := Option.map_eq_some_iff.1 fits
  have short : (before ++ ['*', '/']).length ≤ b.length := by
    simp only [List.length_append, List.length_cons, List.length_nil] at length ⊢
    omega
  obtain ⟨nothing, rfl, rfl⟩ := exists_of_append (Text.append_of_cutFirst? cut).symm short
  obtain rfl : nothing = [] := by
    rw [← List.length_eq_zero_iff]
    simp only [List.length_append, List.length_cons, List.length_nil] at length
    omega
  rw [List.append_nil, List.nil_append] at cut
  rw [List.append_nil] at length ⊢
  rw [cutFirst?_local cut]
  exact congrArg some length

/-- How far a blank or a comment goes is told by its characters, and by whether the first one
behind it may begin a token. -/
theorem between_congr (passed : grammar.between 0 (piece ++ d :: ds) = some (piece.length, kind))
    (filled : piece ≠ []) (alike : d' = d ∨ isOpening d = true ∧ isOpening d' = true)
    (ds' : List Char) : grammar.between 0 (piece ++ d' :: ds') = some (piece.length, kind) := by
  obtain ⟨x, xs, rfl⟩ := List.exists_cons_of_ne_nil filled
  have told (cs : List Char) : grammar.between 0 (x :: xs ++ cs) =
      if Scan.blank x then some (((x :: xs ++ cs).takeWhile Scan.blank).length, none)
      else ((Scan.slashComment (x :: xs ++ cs)).map (fun n => (n, some "line_comment"))).or
        ((Scan.blockComment (x :: xs ++ cs)).map (fun n => (n, some "block_comment"))) := by
    simp only [grammar, Scan.between, List.cons_append, List.findSome?_cons, List.findSome?_nil]
    cases Scan.slashComment (x :: (xs ++ cs)) <;> cases Scan.blockComment (x :: (xs ++ cs)) <;> rfl
  rw [told] at passed ⊢
  split at passed
  · next blank =>
    obtain ⟨length, rfl⟩ := Prod.mk.inj (Option.some.inj passed)
    have run : ((x :: xs ++ d :: ds).takeWhile Scan.blank).length = (x :: xs).length := length
    obtain ⟨all, stops⟩ := stops_of_length_takeWhile run
    have stops' : Scan.blank d' = false := by
      rcases alike with rfl | ⟨-, opening⟩
      · exact stops
      · simp only [isOpening, Bool.and_eq_true, Bool.not_eq_true'] at opening
        exact opening.1
    rw [if_pos blank, Scan.takeWhile_append_of_stopsAt all (Scan.stopsAt_cons stops' ds')]
  · next solid =>
    rw [if_neg solid]
    rcases Option.or_eq_some_iff.1 passed with line | ⟨none, block⟩
    · obtain ⟨n, fits, same⟩ := Option.map_eq_some_iff.1 line
      obtain ⟨rfl, rfl⟩ := Prod.mk.inj same
      rw [slashComment_local fits (alike.imp_right (·.1)) ds']
      rfl
    · obtain ⟨n, fits, same⟩ := Option.map_eq_some_iff.1 block
      obtain ⟨rfl, rfl⟩ := Prod.mk.inj same
      obtain ⟨noLine, fits'⟩ := blockComment_local fits (d' :: ds')
      rw [noLine, fits']
      rfl

end Pieces

theorem IsGap.append (gapped : IsGap gap) (opening : isOpening c = true) (filled : piece ≠ [])
    (passed : grammar.between 0 (piece ++ (gap ++ c :: rest)) = some (piece.length, kind)) :
    IsGap (piece ++ gap) := by
  intro d ds opens
  have further : grammar.between 0 (piece ++ (gap ++ d :: ds)) = some (piece.length, kind) := by
    cases gap with
    | nil => exact between_congr passed filled (.inr ⟨opening, opens⟩) ds
    | cons b bs => exact between_congr passed filled (.inl rfl) (bs ++ d :: ds)
  rw [List.append_assoc, gap_append further filled, gapped d ds opens, List.length_append]

theorem exists_gap_of_lead (c : Cursor) : ∃ gap, c.rest = gap ++ (grammar.lead c).2.rest ∧
    (grammar.lead c).2.place.offset = c.place.offset + gap.length ∧
    ∀ d ds, (grammar.lead c).2.rest = d :: ds → isOpening d = true → IsGap gap := by
  refine Grammar.lead_rec (motive := fun c _ stop => ∃ gap, c.rest = gap ++ stop.rest ∧
    stop.place.offset = c.place.offset + gap.length ∧
    ∀ d ds, stop.rest = d :: ds → isOpening d = true → IsGap gap) ?stays ?piece c
  case stays => exact fun c => ⟨[], rfl, rfl, fun _ _ _ _ => isGap_nil⟩
  case piece =>
    rintro c stop n kind xs found ⟨gap, parts, offset, gapped⟩
    refine ⟨c.rest.take n ++ gap, ?_, ?_, fun d ds begins opening => ?_⟩
    · rw [List.append_assoc, ← parts, Cursor.rest_skip, List.take_append_drop]
    · rw [offset, Grammar.offset_skip, List.length_append, List.length_take, Nat.add_assoc]
    · have whole : c.rest = c.rest.take n ++ (gap ++ d :: ds) := by
        rw [← begins, ← parts, Cursor.rest_skip, List.take_append_drop]
      cases taken : c.rest.take n with
      | nil => simpa using gapped d ds begins opening
      | cons x xs =>
        have passed : grammar.between 0 (x :: xs ++ (gap ++ d :: ds)) = some (n, kind) := by
          rw [← taken, ← whole]
          exact found
        have length : n = (x :: xs).length := by
          have behind := congrArg List.length parts
          rw [Cursor.rest_skip, begins] at behind
          simp only [List.length_drop, List.length_append, List.length_cons] at behind
          rw [← taken, List.length_take]
          omega
        rw [length] at passed
        exact (gapped d ds begins opening).append opening (by simp) passed

/-! The node of a name with packages -/

structure EndsAt (t : Node) (stop : Cursor) (cs : List Char) : Prop where
  tail_eq : t.tail = cs ++ stop.rest
  stop_eq : t.stop = stop.place
  length : stop.place.offset = t.start.offset + cs.length

theorem EndsAt.chars_eq {t : Node} {stop : Cursor} {cs : List Char} (ends : EndsAt t stop cs) :
    t.chars = cs := by
  have length : t.stop.offset - t.start.offset = cs.length := by
    rw [ends.stop_eq, ends.length, Nat.add_sub_cancel_left]
  rw [Node.chars, length, ends.tail_eq, List.take_left]

/-- Behind comments one node, whose text is made of words with dots between them and ends where
the cursor stands. -/
def EndsPath (xs : List Node) (stop : Cursor) : Prop :=
  Single (fun t => t.field = none ∧ ∃ cs, IsPath cs ∧ EndsAt t stop cs) xs

section Paths

variable {left xs ys : List Node} {c stop : Cursor}

theorem exists_of_take (kind : String) (isNamed : Bool) {n : Nat} {d : Char} {ds : List Char}
    (taken : (grammar.lead c).2.rest.take n = d :: ds) (opening : isOpening d = true) :
    ∃ gap, IsGap gap ∧ c.rest = gap ++ (d :: ds ++ ((grammar.lead c).2.skip n).rest) ∧
      ((grammar.lead c).2.skip n).place.offset = c.place.offset + gap.length + (d :: ds).length ∧
      Single (fun t => t.field = none ∧ EndsAt t ((grammar.lead c).2.skip n) (d :: ds))
        (Grammar.take (grammar.lead c).1 (grammar.lead c).2 kind isNamed n).1 := by
  obtain ⟨gap, parts, offset, gapped⟩ := exists_gap_of_lead c
  have whole : (grammar.lead c).2.rest = d :: ds ++ ((grammar.lead c).2.skip n).rest := by
    rw [Cursor.rest_skip, ← taken, List.take_append_drop]
  have moved : ((grammar.lead c).2.skip n).place.offset =
      (grammar.lead c).2.place.offset + (d :: ds).length := by
    rw [Grammar.offset_skip, ← taken, List.length_take]
  refine ⟨gap, gapped d _ whole opening, by rw [← whole, ← parts], by rw [moved, offset], ?_⟩
  exact ⟨_, _, rfl, fun x member => (Grammar.comment_of_lead member).1, rfl, rfl, whole, rfl, moved⟩

theorem exists_of_name (derived : grammar.Derives left name c xs stop) :
    ∃ gap w, IsGap gap ∧ IsWord w ∧ c.rest = gap ++ (w ++ stop.rest) ∧
      stop.place.offset = c.place.offset + gap.length + w.length ∧
      Single (fun t => t.field = none ∧ EndsAt t stop w) xs := by
  cases derived with
  | @leaf _ _ _ _ n fits =>
    have word : IsWord ((grammar.lead c).2.rest.take n) := isWord_of_makes ⟨_, n, fits, rfl⟩
    obtain ⟨d, ds, taken, start⟩ := word.starts
    obtain ⟨gap, gapped, parts, offset, single⟩ :=
      exists_of_take "identifier" true taken (isOpening_of_isNameStart start)
    exact ⟨gap, d :: ds, gapped, taken ▸ word, parts, offset, single⟩

theorem exists_of_dot (derived : grammar.Derives left (.sign ".") c xs stop) :
    ∃ gap, IsGap gap ∧ c.rest = gap ++ '.' :: stop.rest ∧
      stop.place.offset = c.place.offset + gap.length + 1 := by
  cases derived with
  | @sign _ _ _ rest fits =>
    have taken : (grammar.lead c).2.rest.take ".".length = ['.'] := by
      rw [← Scan.append_of_dropStart? fits]
      rfl
    obtain ⟨gap, gapped, parts, offset, -⟩ := exists_of_take "." false taken (by decide)
    exact ⟨gap, gapped, parts, offset⟩

theorem EndsPath.grow (ends : EndsPath left c) {kind role : String}
    (derived : grammar.Derives left (.wrap kind role (Rule.sequence [.sign ".", name])) c xs stop) :
    EndsPath xs stop := by
  obtain ⟨extras, t, assigned, comments, proper, u, ⟨-, cs, path, before⟩, same⟩ :=
    Single.assignField ends (fun t own => own.1) role
  cases derived with
  | wrap inner =>
    cases inner with
    | @seq _ _ _ _ ys _ zs _ dot named =>
      obtain ⟨gap, gapped, parts, offset⟩ := exists_of_dot dot
      obtain ⟨gap', w, gapped', word, parts', offset', extras', v, last, -, -, -, behind⟩ :=
        exists_of_name named
      refine Grammar.single_enclose.mono ?_
      rintro n ⟨-, free, around⟩
      have core : n.children = t :: (ys ++ zs) := by
        rw [around.children_eq, assigned, List.append_assoc, List.singleton_append,
          core_cons comments proper]
      obtain ⟨start, tail⟩ := around.starts t (by rw [core]; rfl)
      have ended : n.stop = v.stop := by
        refine around.stops v ?_
        rw [core, last, ← List.append_assoc, ← List.cons_append, List.getLast?_concat]
        rfl
      refine ⟨free, _, path.dot gapped gapped' word, ?_, ended.trans behind.stop_eq, ?_⟩
      · have text : u.tail = cs ++ c.rest := before.tail_eq
        rw [tail, same]
        simp [text, parts, parts']
      · have first : c.place.offset = u.start.offset + cs.length := before.length
        rw [start, same, offset', offset, first]
        simp only [List.length_append, List.length_cons]
        omega

theorem endsPath_of_path (derived : grammar.Derives left path c xs stop) : EndsPath xs stop := by
  cases derived with
  | @chain _ _ _ _ ys middle _ _ base growth =>
    have first : EndsPath ys middle := by
      obtain ⟨gap, w, -, word, -, -, single⟩ := exists_of_name base
      exact single.mono (fun t own => ⟨own.1, w, word.isPath, own.2⟩)
    clear base
    generalize same : Rule.grow _ = a at growth
    induction growth with
    | growNone => exact first
    | growMore one _ _ others =>
      cases same
      exact others (first.grow one) rfl
    | _ => cases same

end Paths

/-! The nodes of declarations -/

/-- The shape of a declaration's name, by the kind of its node. -/
def nameShape : String → Option Scan
  | "class_declaration" | "enum_declaration" | "record_declaration" | "interface_declaration" =>
    some nameScan
  | _ => none

def Demand (kind : String) (children : List Node) : Prop :=
  NameDemand nameShape kind children ∧ (kind = "package_declaration" → ∀ x ∈ children,
    Analysis.Java.isPath x = true → IsPath x.chars)

def demanding : List String :=
  ["class_declaration", "enum_declaration", "record_declaration", "interface_declaration",
    "package_declaration"]

theorem demand_nil (kind : String) : Demand kind [] :=
  ⟨nameDemand_nil nameShape kind, fun _ => List.forall_mem_nil _⟩

theorem free_of_not_mem_demanding {kind : String} (other : kind ∉ demanding)
    (children : List Node) : Demand kind children := by
  constructor
  · intro scan shaped
    unfold nameShape at shaped
    split at shaped
    · exact absurd (by decide) other
    · exact absurd (by decide) other
    · exact absurd (by decide) other
    · exact absurd (by decide) other
    · cases shaped
  · rintro rfl
    exact absurd (by decide) other

theorem avoids_meets {a : Rule Name} (avoids : a.avoids demanding = true) :
    a.Meets grammar Demand :=
  Rule.meets_of_avoids (fun _ => free_of_not_mem_demanding) avoids

theorem all_avoid_meet {rules : List (Rule Name)}
    (avoid : rules.all (·.avoids demanding) = true) : ∀ a ∈ rules, a.Meets grammar Demand :=
  fun a member => avoids_meets (List.all_eq_true.1 avoid a member)

theorem kind_of_between {depth n : Nat} {cs : List Char} {kind : String}
    (found : grammar.between depth cs = some (n, some kind)) :
    kind ∈ ["line_comment", "block_comment"] := Scan.kind_of_between found

theorem meets_package : (Rule.node "package_declaration" (Rule.sequence [annotations,
    .word "package", path, semicolon])).Meets grammar Demand := by
  refine ⟨avoids_meets (by decide), fun fuel c xs stop run sound =>
    ⟨nofun, fun _ x core isPath => ?_⟩⟩
  have derived := Grammar.derives_of_run run
  have member : x ∈ xs := (Grammar.mem_splitExtras xs).1 (.inr core)
  have among : x.kind ∈ ["scoped_identifier", "identifier"] := by
    simpa [Analysis.Java.isPath] using isPath
  have apart {kind : String} (other : kind ∉ ["scoped_identifier", "identifier"]) :
      x.kind ≠ kind := fun same => other (same ▸ among)
  have proper : x.isExtra = false := by
    by_contra extra
    have kind := Grammar.kind_of_isExtra kind_of_between derived (List.forall_mem_nil _) x member
      (by simpa using extra)
    simp only [List.mem_cons, List.not_mem_nil, or_false] at kind
    exact kind.elim (apart (by decide)) (apart (by decide))
  cases derived with
  | seq marks others =>
  cases others with
  | seq word others =>
  cases others with
  | seq named semi =>
    rcases List.mem_append.1 member with there | member
    · have marked := Grammar.forall_of_many (q := fun x => x.isExtra = false →
        x.kind = "annotation") (fun derived x there proper =>
          ((Grammar.single_call rfl derived).last_of_mem there proper).1.1) marks x there
      exact absurd (marked proper) (apart (by decide))
    · rcases List.mem_append.1 member with there | member
      · cases word with
        | word =>
          exact absurd (Grammar.single_take.last_of_mem there proper).1.1 (apart (by decide))
      · rcases List.mem_append.1 member with there | there
        · obtain ⟨⟨-, cs, path, ends⟩, -⟩ := (endsPath_of_path named).last_of_mem there proper
          exact ends.chars_eq ▸ path
        · exact absurd ((Grammar.single_sign semi).last_of_mem there proper).1.kind_eq
            (apart (by decide))

theorem meets_node {kind : String} {a : Rule Name} (shaped : nameShape kind = some nameScan)
    (other : kind ≠ "package_declaration") (inner : a.avoids demanding = true)
    (names : a.Fills grammar "name" (nameScan.Makes ·.chars)) :
    (Rule.node kind a).Meets grammar Demand := by
  refine ⟨avoids_meets inner, fun fuel c xs stop run sound => ⟨?_, fun same => absurd same other⟩⟩
  intro scan shaped' x member role
  obtain rfl := Option.some.inj (shaped.symm.trans shaped')
  have there : x ∈ xs := (Grammar.mem_splitExtras xs).1 (.inr member)
  exact Grammar.of_fills Analysis.Java.rules_roleless names (Grammar.derives_of_run run) x there
    (sound x there).tidy role

theorem name_fills : (Rule.field "name" name).Fills grammar "name" (nameScan.Makes ·.chars) :=
  Grammar.fills_leaf (fun _ _ made => made)

theorem field_fills {role : String} {a : Rule Name} (other : role ≠ "name")
    (free : a.isRoleless = true) {q : Node → Prop} : (Rule.field role a).Fills grammar "name" q :=
  .field other (.free free)

theorem declaration_meets : declarationRule.Meets grammar Demand := by
  apply Rule.meets_choice
  refine List.forall_mem_cons.2 ⟨?«class», List.forall_mem_cons.2 ⟨?«enum», List.forall_mem_cons.2
    ⟨?record, List.forall_mem_cons.2 ⟨?interface, all_avoid_meet (by decide)⟩⟩⟩⟩
  case «class» =>
    exact meets_node rfl (by decide) (by decide) (.seq (.free rfl) (.seq (.free rfl)
      (.seq name_fills (.seq (.free rfl) (.seq (.free rfl) (.seq (.free rfl) (.seq (.free rfl)
        (field_fills (by decide) rfl))))))))
  case «enum» =>
    exact meets_node rfl (by decide) (by decide) (.seq (.free rfl) (.seq (.free rfl)
      (.seq name_fills (.seq (.free rfl) (.seq (.free rfl) (field_fills (by decide) rfl))))))
  case record =>
    exact meets_node rfl (by decide) (by decide) (.seq (.free rfl) (.seq (.free rfl)
      (.seq name_fills (.seq (.free rfl) (.seq (field_fills (by decide) rfl) (.seq (.free rfl)
        (field_fills (by decide) rfl)))))))
  case interface =>
    exact meets_node rfl (by decide) (by decide) (.seq (.free rfl) (.seq (.free rfl)
      (.seq name_fills (.seq (.free rfl) (.seq (.free rfl) (.seq (.free rfl)
        (field_fills (by decide) rfl)))))))

theorem statement_meets : statementRule.Meets grammar Demand := by
  apply Rule.meets_choice
  exact List.forall_mem_cons.2 ⟨meets_package, all_avoid_meet (by decide)⟩

theorem binary_avoids (level : Nat) : (binaryRule level).avoids demanding = true := by
  unfold binaryRule
  split
  · decide
  · split
    · decide
    · dsimp only
      split <;> simp [Rule.avoids, reads, demanding, op, Rule.sequence, Rule.opt]

theorem rules_meet (name : Name) : (grammar.rule name).Meets grammar Demand := by
  cases name with
  | statement => exact statement_meets
  | declaration => exact declaration_meets
  | binary level => exact avoids_meets (binary_avoids level)
  | _ => exact avoids_meets (by decide)

/-- Every declared type in a document that can be read has a word as its name, and every package
a path. -/
theorem sound_of_read? {text : List Char} {root : Node} (read : read? text = some root) :
    ∀ n ∈ root.children, n.Sound Demand :=
  Grammar.sound_of_read? demand_nil rules_meet (avoids_meets (by decide)) read

end CodeOutline.Grammar.Java
