import CodeOutline.Grammar.Java
import CodeOutline.Proofs.Syntax.Judging
import CodeOutline.Proofs.Text.Occurrence
import Mathlib

/-!
What the rules of Java take where a text varies: blanks and comments between tokens, words, names
with packages, and texts that are known to be read as a type.
-/

set_option autoImplicit false

namespace CodeOutline.Grammar.Java

open Syntax
open Grammar (Leaves Stops blanks depthLimit nil_mem_blanks)

variable {c : Char} {gap w cs rest text : List Char} {n : Nat}

/-! Between tokens -/

def isOpening (c : Char) : Bool := !Scan.blank c && c != '/'

theorem between_eq_none (opening : isOpening c = true) (depth : Nat) (cs : List Char) :
    grammar.between depth (c :: cs) = none := by
  simp only [isOpening, Bool.and_eq_true, Bool.not_eq_true', bne_iff_ne] at opening
  have first : Scan.text "//" (c :: cs) = none :=
    Scan.text_eq_none (by simpa using opening.2.symm) (by decide)
  have second : Scan.text "/*" (c :: cs) = none :=
    Scan.text_eq_none (by simpa using opening.2.symm) (by decide)
  simp [grammar, Scan.between, opening.1, Scan.slashComment, Scan.blockComment, Scan.seq, first,
    second]

/-- Whatever token follows, just this stands in front of it. -/
def IsGap (gap : List Char) : Prop :=
  ∀ c cs, isOpening c = true → grammar.gap (gap ++ c :: cs) = gap.length

theorem isGap_of_blank (all : ∀ c ∈ gap, Scan.blank c = true) : IsGap gap := by
  intro c cs opening
  have ended := between_eq_none opening 0 cs
  cases gap with
  | nil => simp [Grammar.gap, Grammar.gapTo, ended]
  | cons b bs =>
    rw [List.forall_mem_cons] at all
    have solid : Scan.blank c = false := by
      simp only [isOpening, Bool.and_eq_true, Bool.not_eq_true'] at opening
      exact opening.1
    have run : (b :: bs ++ c :: cs).takeWhile Scan.blank = b :: bs :=
      Scan.takeWhile_append_of_stopsAt (List.forall_mem_cons.2 all) (Scan.stopsAt_cons solid cs)
    have passed : grammar.between 0 (b :: (bs ++ c :: cs)) = some (bs.length + 1, none) := by
      have whole : (b :: (bs ++ c :: cs)).takeWhile Scan.blank = b :: bs := run
      simp only [grammar, Scan.between, all.1, if_true, whole, List.length_cons]
    simp only [List.cons_append, Grammar.gap, Grammar.gapTo, passed, List.drop_succ_cons,
      List.drop_left]
    cases bs with
    | nil => simp [Grammar.gapTo, ended]
    | cons d ds => simp [Grammar.gapTo, ended]

theorem isGap_of_all (all : gap.all Scan.blank = true) : IsGap gap :=
  isGap_of_blank (List.all_eq_true.1 all)

theorem isGap_nil : IsGap [] := isGap_of_blank (List.forall_mem_nil _)

theorem isGap_of_blanks (blank : gap ∈ blanks) : IsGap gap := by
  simp only [blanks, List.mem_cons, List.not_mem_nil, or_false] at blank
  obtain rfl | rfl := blank
  · exact isGap_nil
  · exact isGap_of_all (by decide)

theorem isGap_space : IsGap [' '] := isGap_of_blanks Grammar.space_mem_blanks

theorem stops_reads (name : Name) (inner : grammar.Stops n (grammar.rule name) text) :
    grammar.Stops (n + 1) (reads name) text := inner.call

theorem leaves_reads (name : Name) (inner : grammar.Leaves n (grammar.rule name) text rest) :
    grammar.Leaves (n + 1) (reads name) text rest := inner.call

/-! Signs and words -/

section Tokens

variable (gapped : IsGap gap)

include gapped

theorem leaves_sign {s : String} {d : Char} {ds : List Char} (spelled : s.toList = d :: ds)
    (opening : isOpening d = true) (rest : List Char) :
    grammar.Leaves 1 (.sign s) (gap ++ (s.toList ++ rest)) rest := by
  refine Grammar.leaves_token rfl ?_ (Scan.takes_text s rest)
  rw [spelled]
  exact gapped d _ opening

theorem stops_sign {s : String} (opening : isOpening c = true) (other : s.toList.head? ≠ some c)
    (filled : s ≠ "") (rest : List Char) : grammar.Stops 1 (.sign s) (gap ++ c :: rest) :=
  Grammar.stops_token rfl (gapped c rest opening) (Scan.text_eq_none (by simpa using other) filled)

end Tokens

theorem isOpening_of_isNameChar (fits : isNameChar c = true) : isOpening c = true := by
  have signs : ∀ d ∈ [' ', '\t', '\n', '\r', '/'], isNameChar d = false := by
    simp only [List.forall_mem_cons, List.not_mem_nil, false_imp_iff, implies_true, and_true]
    decide
  have codes : ∀ n ∈ [11, 12], isNameChar (Char.ofNat n) = false := by decide
  cases opening : isOpening c with
  | true => rfl
  | false =>
    have among : c ∈ [' ', '\t', '\n', '\r', '/'] ∨ c.toNat ∈ [11, 12] := by
      simp [isOpening, Scan.blank] at opening ⊢
      grind
    rcases among with sign | code
    · rw [signs c sign] at fits
      cases fits
    · have other := codes c.toNat code
      rw [Char.ofNat_toNat, fits] at other
      cases other

theorem isNameChar_of_isNameStart (start : isNameStart c = true) : isNameChar c = true := by
  rw [isNameChar, start, Bool.true_or]

theorem isOpening_of_isNameStart (start : isNameStart c = true) : isOpening c = true :=
  isOpening_of_isNameChar (isNameChar_of_isNameStart start)

theorem IsGap.not_opening (gapped : IsGap (c :: gap)) : isOpening c = false := by
  cases opening : isOpening c with
  | false => rfl
  | true =>
    have here := gapped ';' [] (by decide)
    rw [List.cons_append, Grammar.gap, Grammar.gapTo, between_eq_none opening] at here
    cases here

def Starts (cs : List Char) : Prop := ∃ c rest, cs = c :: rest ∧ isNameStart c = true

namespace Starts

variable (starts : Starts cs) (gapped : IsGap gap)

include starts gapped

theorem gap_eq (rest : List Char) : grammar.gap (gap ++ (cs ++ rest)) = gap.length := by
  obtain ⟨c, ds, rfl, start⟩ := starts
  exact gapped c _ (isOpening_of_isNameStart start)

theorem stops_sign {s : String} {d : Char} {ds : List Char} (spelled : s.toList = d :: ds)
    (plain : isNameStart d = false) (rest : List Char) :
    grammar.Stops 1 (.sign s) (gap ++ (cs ++ rest)) := by
  obtain ⟨c, cs, rfl, start⟩ := starts
  refine Java.stops_sign gapped (isOpening_of_isNameStart start) ?_ ?_ (cs ++ rest)
  · rw [spelled]
    rintro ⟨⟩
    rw [plain] at start
    cases start
  · rintro rfl
    cases spelled

theorem stops_marker (rest : List Char) :
    grammar.Stops 4 (reads .marker) (gap ++ (cs ++ rest)) :=
  stops_reads .marker (.node (.seq_left (starts.stops_sign gapped rfl (by decide) rest)))

theorem annotations_stay (rest : List Char) :
    grammar.Leaves 6 annotations (gap ++ (cs ++ rest)) (gap ++ (cs ++ rest)) :=
  (Leaves.many_stays (starts.stops_marker gapped rest)).mono (by decide)

end Starts

/-- A name: a letter, an underscore or a dollar sign, behind it such characters and digits, and as
a whole none of the reserved words. -/
structure IsWord (cs : List Char) : Prop where
  starts : Starts cs
  all : ∀ c ∈ cs, isNameChar c = true
  free : String.ofList cs ∉ reserved

theorem isWord_of_makes (makes : nameScan.Makes cs) : IsWord cs := by
  obtain ⟨text, n, taken, rfl⟩ := makes
  obtain ⟨m, spelled, such⟩ := Option.bind_eq_some_iff.1 taken
  split at such
  · next free =>
    obtain rfl := Option.some.inj such
    have makes : (Scan.seq (Scan.one isNameStart) (Scan.run isNameChar)).Makes (text.take m) :=
      ⟨text, m, spelled, rfl⟩
    obtain ⟨xs, ys, whole, first, others⟩ := makes.seq
    obtain ⟨c, rfl, start⟩ := first.one
    rw [whole] at free ⊢
    refine ⟨⟨c, ys, rfl, start⟩, List.forall_mem_cons.2 ⟨isNameChar_of_isNameStart start,
      others.run⟩, by simpa using free⟩
  · cases such

abbrev EndsWord (rest : List Char) : Prop := Scan.StopsAt isNameChar rest

theorem endsWord_space (rest : List Char) : EndsWord (' ' :: rest) :=
  Scan.stopsAt_cons (by decide) rest

theorem letters_of_all {ws : List String}
    (all : ws.all (fun s => s.toList.all isNameChar) = true) :
    ∀ s ∈ ws, ∀ c ∈ s.toList, isNameChar c = true := by
  simpa only [List.all_eq_true] using all

theorem fold_eq (c : Char) : grammar.fold c = c := rfl

theorem map_fold (cs : List Char) : cs.map grammar.fold = cs := by
  rw [funext fold_eq]
  exact List.map_id' cs

section Words

variable {ws : List String} {s : String}

theorem stops_words (letters : ∀ s ∈ ws, ∀ c ∈ s.toList, isNameChar c = true)
    (here : grammar.gap (gap ++ text) = gap.length)
    (other : ∀ s ∈ ws, text.takeWhile isNameChar ≠ s.toList) :
    grammar.Stops (ws.length + 1) (Rule.words ws) (gap ++ text) := by
  have single : ∀ s ∈ ws, grammar.Stops 1 (.word s) (gap ++ text) := fun s among =>
    Grammar.stops_word (fun _ _ => rfl) (fun c inside => letters s among _ inside) here
      (by rw [map_fold]; exact other s among)
  clear letters other
  unfold Rule.words
  induction ws with
  | nil => exact Grammar.Settles.never
  | cons s ws ih =>
    rw [List.forall_mem_cons] at single
    cases ws with
    | nil => exact single.1.mono (by simp)
    | cons s' ws => exact (Stops.alt single.1 (ih single.2)).mono (by simp)

theorem leaves_words (letters : ∀ s ∈ ws, ∀ c ∈ s.toList, isNameChar c = true) (among : s ∈ ws)
    (ends : EndsWord (c :: rest))
    (here : grammar.gap (gap ++ (s.toList ++ c :: rest)) = gap.length) :
    grammar.Leaves (ws.length + 1) (Rule.words ws) (gap ++ (s.toList ++ c :: rest))
      (c :: rest) := by
  have fits : grammar.Leaves 1 (.word s) (gap ++ (s.toList ++ c :: rest)) (c :: rest) :=
    Grammar.leaves_word (map_fold _) (ends c rfl) here
  have other : ∀ s' ∈ ws, s' ≠ s →
      grammar.Stops 1 (.word s') (gap ++ (s.toList ++ c :: rest)) := by
    intro s' among' apart
    refine Grammar.stops_word (fun _ _ => rfl) (fun c inside => letters s' among' _ inside) here ?_
    have whole : (s.toList ++ c :: rest).takeWhile grammar.isWordChar = s.toList :=
      Scan.takeWhile_append_of_stopsAt (letters s among) ends
    rw [map_fold, whole]
    exact fun same => apart (String.toList_inj.1 same).symm
  clear letters
  unfold Rule.words
  induction ws with
  | nil => cases among
  | cons s' ws ih =>
    rw [List.forall_mem_cons] at other
    by_cases same : s' = s
    · subst same
      cases ws with
      | nil => exact fits.mono (by simp)
      | cons s'' ws => exact fits.alt_left.mono (by simp)
    · have later := (List.mem_cons.1 among).resolve_left (Ne.symm same)
      cases ws with
      | nil => cases later
      | cons s'' ws => exact (Leaves.alt_right (other.1 same) (ih later other.2)).mono (by simp)

end Words

def isKeyword (s : String) : Bool :=
  match s.toList with
  | c :: cs => isNameStart c && cs.all isNameChar
  | [] => false

theorem letters_of_isKeyword {s : String} (keyword : isKeyword s = true) :
    Starts s.toList ∧ ∀ c ∈ s.toList, isNameChar c = true := by
  unfold isKeyword at keyword
  split at keyword
  · next c cs spelled =>
    rw [Bool.and_eq_true, List.all_eq_true] at keyword
    refine ⟨⟨c, cs, spelled, keyword.1⟩, ?_⟩
    rw [spelled]
    exact List.forall_mem_cons.2 ⟨isNameChar_of_isNameStart keyword.1, keyword.2⟩
  · cases keyword

section Keywords

variable {s : String} (keyword : isKeyword s = true) (gapped : IsGap gap)

include keyword

theorem isWord_of_isKeyword (free : s ∉ reserved) : IsWord s.toList where
  starts := (letters_of_isKeyword keyword).1
  all := (letters_of_isKeyword keyword).2
  free := by rwa [String.ofList_toList]

include gapped

theorem leaves_keyword (rest : List Char) :
    grammar.Leaves 1 (.word s) (gap ++ (s.toList ++ ' ' :: rest)) (' ' :: rest) :=
  Grammar.leaves_word (map_fold _) (by decide) ((letters_of_isKeyword keyword).1.gap_eq gapped _)

theorem stops_keywords (ws : List String) (keywords : ws.all isKeyword = true) (other : s ∉ ws)
    (rest : List Char) :
    grammar.Stops (ws.length + 1) (Rule.words ws) (gap ++ (s.toList ++ ' ' :: rest)) := by
  have letters : ∀ s ∈ ws, ∀ c ∈ s.toList, isNameChar c = true := fun s among =>
    (letters_of_isKeyword (List.all_eq_true.1 keywords s among)).2
  have here := (letters_of_isKeyword keyword).1.gap_eq gapped (' ' :: rest)
  refine stops_words letters here fun s' among same => other ?_
  have whole : (s.toList ++ ' ' :: rest).takeWhile isNameChar = s.toList :=
    Scan.takeWhile_append_of_stopsAt (letters_of_isKeyword keyword).2 (endsWord_space rest)
  rw [whole] at same
  exact String.toList_inj.1 same ▸ among

end Keywords

section Names

variable (gapped : IsGap gap) (word : IsWord w)

include word

theorem IsWord.takeWhile (ends : EndsWord rest) : (w ++ rest).takeWhile isNameChar = w :=
  Scan.takeWhile_append_of_stopsAt word.all ends

theorem takes_nameScan (ends : EndsWord rest) : nameScan.Takes w rest := by
  have free := word.free
  obtain ⟨c, cs, rfl, start⟩ := word.starts
  have others := (List.forall_mem_cons.1 word.all).2
  have spelled : Scan.seq (Scan.one isNameStart) (Scan.run isNameChar) (c :: cs ++ rest) =
      some (c :: cs).length :=
    (Scan.takes_one start (cs ++ rest)).seq (Scan.takes_run others ends)
  have fits :
      (!reserved.contains (String.ofList ((c :: cs ++ rest).take (c :: cs).length))) = true := by
    rw [List.take_left, Bool.not_eq_true', List.contains_eq_mem, decide_eq_false_iff_not]
    exact free
  simp only [Scan.Takes, nameScan, Scan.such, spelled, Option.bind_eq_bind, Option.bind_some, fits,
    if_true]

include gapped

theorem leaves_name (ends : EndsWord rest) : grammar.Leaves 1 name (gap ++ (w ++ rest)) rest :=
  Grammar.leaves_token rfl (word.starts.gap_eq gapped rest) (takes_nameScan word ends)

theorem stops_reserved (ws : List String) (taken : ∀ s ∈ ws, s ∈ reserved)
    (letters : ∀ s ∈ ws, ∀ c ∈ s.toList, isNameChar c = true) (ends : EndsWord rest) :
    grammar.Stops (ws.length + 1) (Rule.words ws) (gap ++ (w ++ rest)) := by
  refine stops_words letters (word.starts.gap_eq gapped rest) fun s among same => word.free ?_
  rw [word.takeWhile ends] at same
  rw [same, String.ofList_toList]
  exact taken s among

end Names

theorem stops_name (gapped : IsGap gap) (opening : isOpening c = true)
    (other : isNameStart c = false) (rest : List Char) :
    grammar.Stops 1 name (gap ++ c :: rest) := by
  refine Grammar.stops_token rfl (gapped c rest opening) ?_
  simp [nameScan, Scan.such, Scan.seq, Scan.one, other]

theorem stops_name_of_reserved (here : grammar.gap (gap ++ text) = gap.length)
    (taken : String.ofList (text.takeWhile isNameChar) ∈ reserved) :
    grammar.Stops 1 name (gap ++ text) := by
  refine Grammar.stops_token rfl here ?_
  cases text with
  | nil => rfl
  | cons c cs =>
    cases start : isNameStart c with
    | false => simp [nameScan, Scan.such, Scan.seq, Scan.one, start]
    | true =>
      have spelled : Scan.seq (Scan.one isNameStart) (Scan.run isNameChar) (c :: cs) =
          some (1 + (cs.takeWhile isNameChar).length) := by
        simp [Scan.seq, Scan.one, Scan.run, start]
      have whole : (c :: cs).take (1 + (cs.takeWhile isNameChar).length) =
          (c :: cs).takeWhile isNameChar := by
        rw [List.takeWhile_cons_of_pos (isNameChar_of_isNameStart start), Nat.add_comm,
          List.take_succ_cons, ← List.prefix_iff_eq_take.1 (List.takeWhile_prefix isNameChar)]
      simp [nameScan, Scan.such, spelled, whole, taken]

/-! Names with packages -/

theorem length_le_flatMap {α : Type} {f : α → List Char} (filled : ∀ a, 1 ≤ (f a).length)
    (as : List α) : as.length ≤ (as.flatMap f).length := by
  rw [List.length_flatMap]
  simpa using List.length_le_sum_of_one_le (as.map (fun a => (f a).length))
    (List.forall_mem_map.2 fun a _ => filled a)

/-- Words behind a dot each, with blanks or comments around the dots. -/
def dotted (ws : List (List Char × List Char × List Char)) : List Char :=
  ws.flatMap (fun v => v.1 ++ '.' :: (v.2.1 ++ v.2.2))

/-- Words with single dots between them, and with blanks or comments around these. -/
def IsPath (cs : List Char) : Prop :=
  ∃ (w : List Char) (ws : List (List Char × List Char × List Char)), IsWord w ∧
    (∀ v ∈ ws, IsGap v.1 ∧ IsGap v.2.1 ∧ IsWord v.2.2) ∧ cs = w ++ dotted ws

theorem IsWord.isPath (word : IsWord cs) : IsPath cs :=
  ⟨cs, [], word, nofun, (List.append_nil cs).symm⟩

namespace IsPath

variable (path : IsPath cs)

include path

theorem starts : Starts cs := by
  obtain ⟨w, ws, word, -, rfl⟩ := path
  obtain ⟨c, cs, rfl, start⟩ := word.starts
  exact ⟨c, _, rfl, start⟩

theorem dot {gap' : List Char} (before : IsGap gap) (behind : IsGap gap') (word : IsWord w) :
    IsPath (cs ++ gap ++ '.' :: (gap' ++ w)) := by
  obtain ⟨v, vs, first, words, rfl⟩ := path
  refine ⟨v, vs ++ [(gap, gap', w)], first, ?_, by simp [dotted]⟩
  intro u member
  rcases List.mem_append.1 member with here | last
  · exact words u here
  · obtain rfl := List.mem_singleton.1 last
    exact ⟨before, behind, word⟩

end IsPath

theorem endsWord_gap (gapped : IsGap gap) (other : isNameChar c = false) (rest : List Char) :
    EndsWord (gap ++ c :: rest) := by
  cases gap with
  | nil => exact Scan.stopsAt_cons other rest
  | cons b bs =>
    refine Scan.stopsAt_cons ?_ (bs ++ c :: rest)
    cases fits : isNameChar b with
    | false => rfl
    | true =>
      have opening := isOpening_of_isNameChar fits
      rw [gapped.not_opening] at opening
      cases opening

section Paths

variable {ws : List (List Char × List Char × List Char)}
  (words : ∀ v ∈ ws, IsGap v.1 ∧ IsGap v.2.1 ∧ IsWord v.2.2)

include words

theorem endsWord_dotted (rest : List Char) : EndsWord (dotted ws ++ ';' :: rest) := by
  cases ws with
  | nil => exact Scan.stopsAt_cons (by decide) rest
  | cons v vs =>
    rw [List.forall_mem_cons] at words
    rw [dotted, List.flatMap_cons, List.append_assoc, List.append_assoc]
    exact endsWord_gap words.1.1 (by decide) _

theorem leaves_dotted (rest : List Char) :
    grammar.Leaves (ws.length + 6)
      (.grow (.wrap "scoped_identifier" "scope" (Rule.sequence [.sign ".", name])))
      (dotted ws ++ ';' :: rest) (';' :: rest) := by
  induction ws with
  | nil =>
    have none := stops_sign (s := ".") isGap_nil (c := ';') (by decide) (by decide) (by decide) rest
    exact (Leaves.grow_stays none.seq_left.wrap).mono (by simp)
  | cons v vs ih =>
    rw [List.forall_mem_cons] at words
    obtain ⟨⟨before, behind, word⟩, others⟩ := words
    have text : dotted (v :: vs) ++ ';' :: rest =
        v.1 ++ (".".toList ++ (v.2.1 ++ (v.2.2 ++ (dotted vs ++ ';' :: rest)))) := by
      simp [dotted]
    have dot := leaves_sign before (s := ".") rfl (by decide)
      (v.2.1 ++ (v.2.2 ++ (dotted vs ++ ';' :: rest)))
    have named := leaves_name behind word (endsWord_dotted others rest)
    rw [text]
    exact ((dot.seq named).wrap.grow_more (ih others)).mono (by simp)

end Paths

theorem leaves_path (gapped : IsGap gap) (whole : IsPath cs) (rest : List Char) :
    grammar.Leaves (depthLimit cs.length) path (gap ++ (cs ++ ';' :: rest)) (';' :: rest) := by
  obtain ⟨w, ws, word, words, rfl⟩ := whole
  rw [List.append_assoc]
  refine ((leaves_name gapped word (endsWord_dotted words rest)).chain_grow
    (leaves_dotted words rest)).mono ?_
  have shorter : ws.length ≤ (dotted ws).length :=
    length_le_flatMap (fun v => by simp only [List.length_append, List.length_cons]; omega) ws
  simp only [depthLimit, List.length_append]
  omega

/-! Types -/

def typeSigns : List String := ["<", ".", "@", "["]

theorem annotations_stay (mark : grammar.Stops 1 (.sign "@") text) :
    grammar.Leaves 6 annotations text text := by
  have none : grammar.Stops 4 (reads .marker) text :=
    stops_reads .marker (.node (.seq_left mark))
  exact (Leaves.many_stays none).mono (by omega)

theorem dimensions_stay (mark : grammar.Stops 1 (.sign "@") text)
    (bracket : grammar.Stops 1 (.sign "[") text) :
    grammar.Leaves 12 (Rule.opt dimensions) text text :=
  Leaves.mono (.opt_stays (.seq_left (.seq_right (annotations_stay mark) (.seq_left bracket))))
    (by omega)

def furtherWord : Rule Name :=
  .seq (.seq (.sign ".") annotations) (.seq name (Rule.opt (reads .typeArguments)))

theorem leaves_firstWord (gapped : IsGap gap) (word : IsWord w) (ends : EndsWord rest)
    (other : ∀ s ∈ ["<", "@", "["], grammar.Stops 1 (.sign s) rest)
    (last : grammar.Stops 10 furtherWord rest) :
    grammar.Leaves 30 (reads .type) (gap ++ (w ++ rest)) rest := by
  simp only [List.forall_mem_cons] at other
  obtain ⟨less, mark, bracket, -⟩ := other
  have plain : grammar.Leaves 6 annotations (gap ++ (w ++ rest)) (gap ++ (w ++ rest)) :=
    word.starts.annotations_stay gapped rest
  have primitive : grammar.Stops 10 (Rule.words primitiveWords) (gap ++ (w ++ rest)) :=
    stops_reserved gapped word primitiveWords (by decide) (letters_of_all (by decide)) ends
  have arguments : grammar.Stops 4 (reads .typeArguments) rest :=
    stops_reads .typeArguments (.node (.seq_left less))
  have one := (leaves_name gapped word ends).seq (.opt_stays arguments)
  have named := one.seq (.many_stays last)
  exact Leaves.mono (leaves_reads .type (.node (plain.seq
    ((Leaves.alt_right primitive named).seq (dimensions_stay mark bracket))))) (by omega)

theorem leaves_typeWord (gapped : IsGap gap) (word : IsWord w) (ends : EndsWord rest)
    (other : ∀ s ∈ typeSigns, grammar.Stops 1 (.sign s) rest) :
    grammar.Leaves 30 (reads .type) (gap ++ (w ++ rest)) rest := by
  have dot := other "." (by decide)
  refine leaves_firstWord gapped word ends (fun s member => other s ?_) ?_
  · exact (by decide : ∀ s ∈ ["<", "@", "["], s ∈ typeSigns) s member
  · exact Stops.mono (.seq_left (.seq_left dot)) (by decide)

/-- What may stand behind a type: a word, or the dots of a parameter that takes any number of
values. -/
def Follows (rest : List Char) : Prop :=
  ∃ w, IsWord w ∧ ∃ tail, EndsWord tail ∧
    (rest = ' ' :: (w ++ tail) ∨ rest = ['.', '.', '.', ' '] ++ (w ++ tail))

def leadingWords : List String :=
  ["public", "protected", "private", "abstract", "static", "final", "strictfp", "synchronized",
    "native", "transient", "volatile", "default", "sealed", "class", "enum", "record", "interface"]

/-- A type in front of a name: it begins with a word, but with none that begins modifiers or a
declaration, and it is read alone. -/
structure IsType (cs : List Char) : Prop where
  starts : Starts cs
  plain : ∀ s ∈ leadingWords, cs.takeWhile isNameChar ≠ s.toList
  read : ∀ gap ∈ blanks, ∀ rest, Follows rest →
    grammar.Leaves (depthLimit cs.length) (reads .type) (gap ++ (cs ++ rest)) rest

theorem Follows.cases (follows : Follows rest) :
    ∃ c tail, c ∈ [' ', '.'] ∧ rest = c :: tail ∧
      (c = ' ' → ∃ d ds, tail = d :: ds ∧ isNameStart d = true) := by
  obtain ⟨w, word, tail, -, rfl | rfl⟩ := follows
  · obtain ⟨d, ds, rfl, start⟩ := word.starts
    exact ⟨' ', _, by simp, rfl, fun _ => ⟨d, _, rfl, start⟩⟩
  · exact ⟨'.', _, by simp, rfl, fun other => absurd other (by decide)⟩

theorem Follows.endsWord (follows : Follows rest) : EndsWord rest := by
  obtain ⟨c, tail, among, rfl, -⟩ := follows.cases
  simp only [List.mem_cons, List.not_mem_nil, or_false] at among
  obtain rfl | rfl := among
  · exact Scan.stopsAt_cons (by decide) tail
  · exact Scan.stopsAt_cons (by decide) tail

theorem Follows.stops_sign (follows : Follows rest) {s : String} {d : Char} {ds : List Char}
    (spelled : s.toList = d :: ds) (other : d ≠ '.') (plain : isNameStart d = false) :
    grammar.Stops 1 (.sign s) rest := by
  have filled : s ≠ "" := by
    rintro rfl
    cases spelled
  obtain ⟨c, tail, among, rfl, begins⟩ := follows.cases
  simp only [List.mem_cons, List.not_mem_nil, or_false] at among
  obtain rfl | rfl := among
  · obtain ⟨e, es, rfl, start⟩ := begins rfl
    refine Java.stops_sign isGap_space (isOpening_of_isNameStart start) ?_ filled es
    rw [spelled]
    rintro ⟨⟩
    rw [plain] at start
    cases start
  · refine Java.stops_sign isGap_nil (by decide) ?_ filled tail
    rw [spelled]
    rintro ⟨⟩
    exact other rfl

namespace IsType

variable {T : List Char} (type : IsType T) (follows : Follows rest)

include type

omit type in
theorem takeWhile_append (T : List Char) (ends : EndsWord rest) :
    (T ++ rest).takeWhile isNameChar = T.takeWhile isNameChar := by
  rw [List.takeWhile_append]
  split
  · next full =>
    have all : T.takeWhile isNameChar = T := (List.takeWhile_prefix _).eq_of_length full
    have nothing : rest.takeWhile isNameChar = [] := by
      simpa using Scan.takeWhile_append_of_stopsAt (List.forall_mem_nil _) ends
    rw [nothing, List.append_nil, all]
  · rfl

omit type in
theorem endsWord_dropWhile (T : List Char) (ends : EndsWord rest) :
    EndsWord (T.dropWhile isNameChar ++ rest) := by
  cases behind : T.dropWhile isNameChar with
  | nil => exact ends
  | cons c cs =>
    have other := List.head_dropWhile_not isNameChar (l := T) (by rw [behind]; exact nofun)
    simp only [behind, List.head_cons] at other
    exact Scan.stopsAt_cons other _

theorem isWord (free : String.ofList (T.takeWhile isNameChar) ∉ reserved) :
    IsWord (T.takeWhile isNameChar) := by
  refine ⟨?_, List.all_eq_true.1 List.all_takeWhile, free⟩
  obtain ⟨c, cs, rfl, start⟩ := type.starts
  exact ⟨c, cs.takeWhile isNameChar, by
    rw [List.takeWhile_cons_of_pos (isNameChar_of_isNameStart start)], start⟩

theorem dropWhile_eq_nil (follows : Follows rest)
    (free : String.ofList (T.takeWhile isNameChar) ∉ reserved)
    (other : ∀ s ∈ typeSigns, grammar.Stops 1 (.sign s) (T.dropWhile isNameChar ++ rest)) :
    T.dropWhile isNameChar = [] := by
  have word := type.isWord free
  have short := leaves_typeWord isGap_nil word (endsWord_dropWhile T follows.endsWord) other
  have whole := type.read [] nil_mem_blanks rest follows
  rw [List.nil_append, ← List.append_assoc, List.takeWhile_append_dropWhile] at short
  exact List.append_left_eq_self.1 (short.unique whole)

theorem stops_paren (follows : Follows rest)
    (free : String.ofList (T.takeWhile isNameChar) ∉ reserved) :
    grammar.Stops 1 (.sign "(") (T.dropWhile isNameChar ++ rest) := by
  by_contra fits
  have other : ∀ s ∈ typeSigns, grammar.Stops 1 (.sign s) (T.dropWhile isNameChar ++ rest) := by
    simp only [typeSigns, List.forall_mem_cons, List.not_mem_nil, false_imp_iff, implies_true,
      and_true]
    refine ⟨?_, ?_, ?_, ?_⟩
    all_goals exact Grammar.stops_sign_of_other rfl rfl (by decide) fits
  rw [type.dropWhile_eq_nil follows free other] at fits
  exact fits (follows.stops_sign rfl (by decide) (by decide))

theorem stops_words (ws : List String) (among : ∀ s ∈ ws, s ∈ leadingWords) (gapped : IsGap gap)
    (ends : EndsWord rest) :
    grammar.Stops (ws.length + 1) (Rule.words ws) (gap ++ (T ++ rest)) := by
  have letters : ∀ s ∈ leadingWords, ∀ c ∈ s.toList, isNameChar c = true :=
    letters_of_all (by decide)
  refine Java.stops_words (fun s member => letters s (among s member))
    (type.starts.gap_eq gapped rest) fun s member => ?_
  rw [takeWhile_append T ends]
  exact type.plain s (among s member)

end IsType

theorem Follows.stops_furtherWord (follows : Follows rest) :
    grammar.Stops 10 furtherWord rest := by
  obtain ⟨w, word, tail, -, rfl | rfl⟩ := follows
  · have dot := word.starts.stops_sign isGap_space (s := ".") rfl (by decide) tail
    exact Stops.mono (.seq_left (.seq_left dot)) (by decide)
  · have dot := leaves_sign isGap_nil (s := ".") rfl (by decide) (['.', '.', ' '] ++ (w ++ tail))
    have mark := Java.stops_sign isGap_nil (s := "@") (c := '.') (by decide) (by decide) (by decide)
      (['.', ' '] ++ (w ++ tail))
    have named := stops_name isGap_nil (c := '.') (by decide) (by decide)
      (['.', ' '] ++ (w ++ tail))
    exact Stops.mono (.seq_right (dot.seq (annotations_stay mark)) (.seq_left named)) (by decide)

theorem IsWord.isType (word : IsWord w) (plain : ∀ s ∈ leadingWords, w ≠ s.toList) : IsType w where
  starts := word.starts
  plain s among := by
    rw [← List.append_nil w, word.takeWhile (fun c other => by cases other)]
    exact plain s among
  read gap blank rest follows := by
    have other : ∀ s ∈ ["<", "@", "["], grammar.Stops 1 (.sign s) rest := by
      simp only [List.forall_mem_cons, List.not_mem_nil, false_imp_iff, implies_true, and_true]
      refine ⟨?_, ?_, ?_⟩
      all_goals exact follows.stops_sign rfl (by decide) (by decide)
    refine (leaves_firstWord (isGap_of_blanks blank) word follows.endsWord other
      follows.stops_furtherWord).mono ?_
    simp only [depthLimit]
    omega

/-! Modifiers -/

def modifierWords : List String :=
  ["public", "protected", "private", "abstract", "static", "final", "strictfp", "synchronized",
    "native", "transient", "volatile"]

def modifier : Rule Name :=
  Rule.choice [reads .marker, Rule.words modifierWords,
    .seq (.word "default") (.notAhead (op [":", "->"])), .word "sealed", .sign "non-sealed"]

theorem leaves_modifier (gapped : IsGap gap) {s : String} (among : s ∈ modifierWords)
    (rest : List Char) :
    grammar.Leaves 20 modifier (gap ++ (s.toList ++ ' ' :: rest)) (' ' :: rest) := by
  have keywords : modifierWords.all isKeyword = true := by decide
  have keyword : isKeyword s = true := List.all_eq_true.1 keywords s among
  have marker : grammar.Stops 4 (reads .marker) (gap ++ (s.toList ++ ' ' :: rest)) :=
    (letters_of_isKeyword keyword).1.stops_marker gapped _
  have letters : ∀ s ∈ modifierWords, ∀ c ∈ s.toList, isNameChar c = true :=
    letters_of_all (by decide)
  have fits := leaves_words letters among (endsWord_space rest)
    ((letters_of_isKeyword keyword).1.gap_eq gapped _)
  exact (Leaves.alt_right marker fits.alt_left).mono (by decide)

theorem IsType.stops_modifier {T : List Char} (type : IsType T) (follows : Follows rest)
    (gapped : IsGap gap) : grammar.Stops 20 modifier (gap ++ (T ++ rest)) := by
  have marker := type.starts.stops_marker gapped rest
  have words := type.stops_words modifierWords (by decide) gapped follows.endsWord
  have default : grammar.Stops 2 (.word "default") (gap ++ (T ++ rest)) :=
    type.stops_words ["default"] (by decide) gapped follows.endsWord
  have sealed : grammar.Stops 2 (.word "sealed") (gap ++ (T ++ rest)) :=
    type.stops_words ["sealed"] (by decide) gapped follows.endsWord
  have unsealed : grammar.Stops 1 (.sign "non-sealed") (gap ++ (T ++ rest)) := by
    refine Grammar.stops_token rfl (type.starts.gap_eq gapped rest) ?_
    cases found : Text.dropStart? "non-sealed".toList (T ++ rest) with
    | none => rfl
    | some tail =>
      -- the type would end behind its first three letters
      have letters : "non-sealed".toList = ['n', 'o', 'n'] ++ '-' :: "sealed".toList := by decide
      have whole : ['n', 'o', 'n'] ++ '-' :: ("sealed".toList ++ tail) = T ++ rest := by
        rw [← Scan.append_of_dropStart? found, letters]
        rfl
      have first : T.takeWhile isNameChar = ['n', 'o', 'n'] := by
        rw [← takeWhile_append T follows.endsWord, ← whole]
        have letters : ['n', 'o', 'n'].all isNameChar = true := by decide
        exact Scan.takeWhile_append_of_stopsAt (List.all_eq_true.1 letters)
          (Scan.stopsAt_cons (by decide) _)
      have behind : T.dropWhile isNameChar ++ rest = '-' :: ("sealed".toList ++ tail) := by
        have both := congrArg (· ++ rest)
          (List.takeWhile_append_dropWhile (p := isNameChar) (l := T))
        rw [List.append_assoc, first, ← whole] at both
        exact List.append_cancel_left both
      have alone := type.dropWhile_eq_nil follows (by rw [first]; decide) (by
        rw [behind]
        simp only [typeSigns, List.forall_mem_cons, List.not_mem_nil, false_imp_iff, implies_true,
          and_true]
        refine ⟨?_, ?_, ?_, ?_⟩
        all_goals exact Java.stops_sign isGap_nil (by decide) (by decide) (by decide) _)
      rw [alone, List.nil_append] at behind
      obtain ⟨c, ds, among, rfl, -⟩ := follows.cases
      obtain ⟨rfl, -⟩ := List.cons.inj behind
      exact absurd among (by decide)
  exact Stops.mono (.alt marker (.alt words (.alt (.seq_left default) (.alt sealed unsealed))))
    (by decide)

/-- Modifiers with blanks between them. -/
def modified (s : String) (others : List String) : List Char :=
  s.toList ++ others.flatMap (fun s => ' ' :: s.toList)

section Modifiers

variable {others : List String}

private theorem leaves_more_modifiers (among : ∀ s ∈ others, s ∈ modifierWords)
    (stops : grammar.Stops 20 modifier (' ' :: rest)) :
    grammar.Leaves (others.length + 21) (.many modifier)
      (others.flatMap (fun s => ' ' :: s.toList) ++ ' ' :: rest) (' ' :: rest) := by
  induction others with
  | nil => exact Leaves.many_stays stops
  | cons s others ih =>
    rw [List.forall_mem_cons] at among
    have next : others.flatMap (fun s => ' ' :: s.toList) ++ ' ' :: rest =
        ' ' :: (others.flatMap (fun s => ' ' :: s.toList) ++ ' ' :: rest).tail := by
      cases others <;> rfl
    have here := leaves_modifier isGap_space among.1
      (others.flatMap (fun s => ' ' :: s.toList) ++ ' ' :: rest).tail
    rw [← next] at here
    have text : (s :: others).flatMap (fun s => ' ' :: s.toList) ++ ' ' :: rest =
        [' '] ++ (s.toList ++ (others.flatMap (fun s => ' ' :: s.toList) ++ ' ' :: rest)) := by simp
    rw [text]
    refine (here.many_more (fun same => ?_) (ih among.2)).mono ?_
    · have lengths := congrArg List.length same
      rw [List.length_append, List.length_append, List.length_singleton] at lengths
      omega
    · simp only [List.length_cons]
      omega

theorem leaves_modifiers (gapped : IsGap gap) {s : String} (first : s ∈ modifierWords)
    (among : ∀ s ∈ others, s ∈ modifierWords)
    (stops : grammar.Stops 20 modifier (' ' :: rest)) :
    grammar.Leaves (others.length + 25) modifiers (gap ++ (modified s others ++ ' ' :: rest))
      (' ' :: rest) := by
  have next : others.flatMap (fun s => ' ' :: s.toList) ++ ' ' :: rest =
      ' ' :: (others.flatMap (fun s => ' ' :: s.toList) ++ ' ' :: rest).tail := by
    cases others <;> rfl
  have here := leaves_modifier gapped first
    (others.flatMap (fun s => ' ' :: s.toList) ++ ' ' :: rest).tail
  rw [← next] at here
  rw [modified, List.append_assoc]
  exact Leaves.mono (.opt (.node (here.seq (leaves_more_modifiers among stops)))) (by omega)

theorem modifiers_stay (stops : grammar.Stops 20 modifier text) :
    grammar.Leaves 25 modifiers text text :=
  Leaves.mono (.opt_stays (.node (.seq_left stops))) (by decide)

end Modifiers

end CodeOutline.Grammar.Java
