import CodeOutline.Proofs.Python.Statements
import CodeOutline.Proofs.Syntax.Judging
import CodeOutline.Proofs.Syntax.Tokens

/-!
Tokens of statements. Where spaces and tabs are the only blanks, tokens stand one behind the other
with gaps between them, and names between dots make one name.
-/

set_option autoImplicit false

namespace CodeOutline.Analysis.Python

open Syntax
open Grammar.Python (Name grammar nameScan isNameChar between continuation)

/-- Spaces and tabs are the only blanks. -/
def IsEven (cs : List Char) : Prop := ∀ c ∈ cs, Text.isBlank c = true → c = ' ' ∨ c = '\t'

instance : DecidablePred IsEven := fun cs =>
  decidable_of_iff (cs.all (fun c => !Text.isBlank c || (c == ' ' || c == '\t')) = true) (by
    simp [IsEven, imp_iff_not_or])

/-! ## What stands between tokens -/

section Between

variable {depth n : Nat} {cs gap : List Char} {kind : String} {c : Cursor} {d : Char}

theorem IsEven.newline_not_mem (even : IsEven cs) : '\n' ∉ cs := by
  intro member
  rcases even '\n' member (by decide) with same | same <;> cases same

theorem isBlank_of_blank (blank : Scan.blank d = true) : Text.isBlank d = true := by
  have all : Scan.blanks.all Text.isBlank = true := by decide
  exact List.all_eq_true.1 all d (Scan.mem_blanks blank)

theorem newline_mem_of_continuation (found : continuation cs = some n) : '\n' ∈ cs.take n := by
  obtain ⟨xs, ys, parts, -, rest⟩ := Scan.Makes.seq ⟨cs, n, found, rfl⟩
  obtain ⟨xs', ys', rfl, -, rest⟩ := Scan.Makes.seq rest
  obtain ⟨xs'', ys'', rfl, feed, -⟩ := Scan.Makes.seq rest
  rw [parts, Scan.Makes.text feed]
  simp

theorem isGap_of_first {p : Char → Bool} (blanks : ∀ c, p c = true → Text.isBlank c = true)
    (found : Scan.first [Scan.run1 p, continuation] cs = some n) (even : IsEven (cs.take n)) :
    IsGap (cs.take n) := by
  simp only [Scan.first, Scan.alt, Option.orElse_eq_or, Option.or_none] at found
  rcases Option.or_eq_some_iff.1 found with run | ⟨-, line⟩
  · have taken : cs.take n = cs.takeWhile p := by
      unfold Scan.run1 at run
      split at run
      · cases run
      · obtain rfl := Option.some.inj run
        exact (List.prefix_iff_eq_take.1 (List.takeWhile_prefix p)).symm
    rw [taken]
    exact fun c member => blanks c (List.mem_takeWhile_imp member)
  · exact absurd (newline_mem_of_continuation line) even.newline_not_mem

theorem isGap_of_between (found : between depth cs = some (n, none)) (even : IsEven (cs.take n)) :
    IsGap (cs.take n) := by
  unfold between at found
  split at found
  · obtain ⟨m, first, same⟩ := Option.map_eq_some_iff.1 found
    obtain ⟨rfl, -⟩ := Prod.mk.inj same
    refine isGap_of_first (fun c inner => ?_) first even
    exact isBlank_of_blank (Bool.and_eq_true_iff.1 inner).1
  · split at found
    · next first =>
      obtain ⟨rfl, -⟩ := Prod.mk.inj (Option.some.inj found)
      exact isGap_of_first (fun c => isBlank_of_blank) first even
    · obtain ⟨m, -, same⟩ := Option.map_eq_some_iff.1 found
      cases same

theorem comment_of_between (found : between depth cs = some (n, some kind)) :
    kind = "comment" ∧ ∀ d ∈ (cs.drop n).head?, d = '\n' := by
  unfold between at found
  split at found
  · obtain ⟨m, -, same⟩ := Option.map_eq_some_iff.1 found
    cases same
  · split at found
    · cases found
    · obtain ⟨m, comment, same⟩ := Option.map_eq_some_iff.1 found
      obtain ⟨rfl, rfl⟩ : m = n ∧ "comment" = kind := by simpa using same
      refine ⟨rfl, fun d first => ?_⟩
      obtain ⟨i, -, more⟩ := Option.bind_eq_some_iff.1 comment
      obtain ⟨j, run, sum⟩ := Option.bind_eq_some_iff.1 more
      obtain rfl := Option.some.inj sum
      obtain rfl := Option.some.inj run
      have behind := congrArg (List.drop ((cs.drop i).takeWhile Scan.notNewline).length)
        (List.takeWhile_append_dropWhile (p := Scan.notNewline) (l := cs.drop i))
      rw [List.drop_left] at behind
      rw [← List.drop_drop, ← behind] at first
      have stops := List.head?_dropWhile_not Scan.notNewline (cs.drop i)
      rw [Option.mem_def.1 first] at stops
      simpa [Scan.notNewline] using stops

theorem exists_gap_lead (c : Cursor) : ∃ gap, c.Passes gap (grammar.lead c).2 ∧ (IsEven gap →
    (∃ d ∈ (grammar.lead c).2.rest.head?, Text.isBlank d = false) →
      (grammar.lead c).1 = [] ∧ IsGap gap) := by
  refine Syntax.Grammar.lead_rec (motive := fun c xs stop => ∃ gap, c.Passes gap stop ∧
    (IsEven gap → (∃ d ∈ stop.rest.head?, Text.isBlank d = false) → xs = [] ∧ IsGap gap))
    ?stays ?piece c
  case stays => exact fun c => ⟨[], .refl c, fun _ _ => ⟨rfl, List.forall_mem_nil _⟩⟩
  case piece =>
    rintro c stop n kind xs found ⟨gap, later, plain⟩
    refine ⟨_, (Cursor.Passes.skip c n).trans later, fun even solid => ?_⟩
    obtain ⟨here, there⟩ := List.forall_mem_append.1 even
    cases kind with
    | none =>
      obtain ⟨none_, blank⟩ := plain there solid
      exact ⟨none_, List.forall_mem_append.2 ⟨isGap_of_between found here, blank⟩⟩
    | some kind =>
      -- Behind a comment there is the end of a line, or nothing.
      have stops := (comment_of_between found).2
      rw [← Cursor.rest_skip, later.text] at stops
      exfalso
      cases gap with
      | nil =>
        obtain ⟨d, first, solid⟩ := solid
        obtain rfl := stops d first
        cases solid
      | cons d gap =>
        obtain rfl := stops d rfl
        exact IsEven.newline_not_mem even (by simp)

theorem lead_of_even (passed : c.Passes gap (grammar.lead c).2) (even : IsEven gap)
    (solid : ∃ d ∈ (grammar.lead c).2.rest.head?, Text.isBlank d = false) :
    (grammar.lead c).1 = [] ∧ IsGap gap := by
  obtain ⟨gap', passed', plain⟩ := exists_gap_lead c
  obtain rfl := passed.unique passed'
  exact plain even solid

end Between

/-! ## Rows of tokens -/

/-- Tokens that stand one behind the other between two cursors, with a gap in front of them. -/
structure Row (c : Cursor) (gap body : List Char) (xs : List Node) (stop : Cursor) : Prop where
  passes : c.Passes (gap ++ body) stop
  blank : IsGap gap
  proper : ∀ x ∈ xs, x.isExtra = false
  first : ∃ x ∈ xs.head?, x.start.offset = c.place.offset + gap.length ∧ x.tail = body ++ stop.rest
  last : ∃ x ∈ xs.getLast?, x.stop.offset = stop.place.offset

namespace Row

variable {c middle stop : Cursor} {gap body gap' body' : List Char} {xs ys : List Node} {x : Node}

theorem append (one : Row c gap body xs middle) (other : Row middle gap' body' ys stop) :
    Row c gap (body ++ gap' ++ body') (xs ++ ys) stop where
  passes := by
    have both := one.passes.trans other.passes
    simpa only [List.append_assoc] using both
  blank := one.blank
  proper := List.forall_mem_append.2 ⟨one.proper, other.proper⟩
  first := by
    obtain ⟨x, first, start, tail⟩ := one.first
    refine ⟨x, ?_, start, ?_⟩
    · rw [List.head?_append, Option.mem_def.1 first]
      rfl
    · rw [tail, other.passes.text]
      simp only [List.append_assoc]
  last := by
    obtain ⟨y, last, ends⟩ := other.last
    refine ⟨y, ?_, ends⟩
    rw [List.getLast?_append, Option.mem_def.1 last]
    rfl

theorem ne_nil (row : Row c gap body xs stop) : xs ≠ [] := by
  rintro rfl
  obtain ⟨x, first, -⟩ := row.first
  cases first

theorem spellingOf_eq (row : Row c gap body xs stop) : spellingOf xs = String.ofList body := by
  obtain ⟨x, first, start, tail⟩ := row.first
  obtain ⟨y, last, ends⟩ := row.last
  have length : y.stop.offset - x.start.offset = body.length := by
    rw [ends, row.passes.offset, start, List.length_append]
    omega
  rw [spellingOf, Option.mem_def.1 first, Option.mem_def.1 last]
  simp only [length, tail, List.take_left]

theorem setDepth (row : Row c gap body xs stop) (depth depth' : Nat) :
    Row { c with depth := depth } gap body xs { stop with depth := depth' } where
  passes := ⟨row.passes.text, row.passes.offset⟩
  blank := row.blank
  proper := row.proper
  first := row.first
  last := row.last

end Row

/-! ## Tokens -/

section Tokens

variable {c stop : Cursor} {gap cs : List Char} {xs : List Node} {s : String}

theorem row_of_take {kind : String} {isNamed : Bool} {n : Nat}
    (led : c.Passes gap (grammar.lead c).2)
    (even : IsEven (gap ++ (grammar.lead c).2.rest.take n))
    (solid : ∃ d ∈ ((grammar.lead c).2.rest.take n).head?, Text.isBlank d = false) :
    ∃ x, (Syntax.Grammar.take (grammar.lead c).1 (grammar.lead c).2 kind isNamed n).1 = [x] ∧
      x.kind = kind ∧ Row c gap ((grammar.lead c).2.rest.take n) [x]
        (Syntax.Grammar.take (grammar.lead c).1 (grammar.lead c).2 kind isNamed n).2 := by
  have next : ∃ d ∈ (grammar.lead c).2.rest.head?, Text.isBlank d = false := by
    obtain ⟨d, first, solid⟩ := solid
    refine ⟨d, ?_, solid⟩
    rw [← List.take_append_drop n (grammar.lead c).2.rest, List.head?_append,
      Option.mem_def.1 first]
    rfl
  obtain ⟨none_, blank⟩ := lead_of_even led (List.forall_mem_append.1 even).1 next
  have piece := Cursor.Passes.skip (grammar.lead c).2 n
  refine ⟨_, by rw [Syntax.Grammar.take, none_]; rfl, rfl, ?_⟩
  exact {
    passes := led.trans piece
    blank := blank
    proper := List.forall_mem_singleton.2 rfl
    first := ⟨_, rfl, led.offset, piece.text⟩
    last := ⟨_, rfl, rfl⟩ }

theorem row_of_text {isNamed : Bool} {rest : List Char} (led : c.Passes gap (grammar.lead c).2)
    (text : s.toList ++ rest = (grammar.lead c).2.rest)
    (even : IsEven (gap ++ (grammar.lead c).2.rest.take s.length))
    (solid : ∃ d ∈ s.toList.head?, Text.isBlank d = false) :
    ∃ x, (Syntax.Grammar.take (grammar.lead c).1 (grammar.lead c).2 s isNamed s.length).1 = [x] ∧
      x.kind = s ∧ Row c gap s.toList [x]
        (Syntax.Grammar.take (grammar.lead c).1 (grammar.lead c).2 s isNamed s.length).2 := by
  have word : (grammar.lead c).2.rest.take s.length = s.toList := by
    rw [← text, ← String.length_toList, List.take_left]
  rw [← word] at solid ⊢
  exact row_of_take led even solid

theorem row_sign (spelled : grammar.Spells (.sign s) c cs xs stop) (even : IsEven cs)
    (solid : ∃ d ∈ s.toList.head?, Text.isBlank d = false) :
    ∃ gap x, xs = [x] ∧ x.kind = s ∧ Row c gap s.toList [x] stop := by
  cases spelled with
  | sign led fits =>
    exact ⟨_, row_of_text led (Scan.append_of_dropStart? fits) even solid⟩

theorem append_of_dropWord? {word text rest : List Char}
    (found : grammar.dropWord? word text = some rest) : word ++ rest = text := by
  obtain ⟨xs, rfl, same⟩ := Syntax.Grammar.append_of_dropWord? (fun _ _ => rfl) found
  have kept : grammar.fold = id := rfl
  rw [kept, List.map_id] at same
  rw [same]

theorem row_word (spelled : grammar.Spells (.word s) c cs xs stop) (even : IsEven cs)
    (solid : ∃ d ∈ s.toList.head?, Text.isBlank d = false) :
    ∃ gap x, xs = [x] ∧ x.kind = s ∧ Row c gap s.toList [x] stop := by
  cases spelled with
  | word led fits =>
    exact ⟨_, row_of_text led (append_of_dropWord? fits) even solid⟩

end Tokens

/-! ## Names -/

section Names

variable {c middle stop : Cursor} {gap gap' cs : List Char} {xs ys : List Node} {s t : String}
  {a : Rule Name}

theorem isFree_append_sep {c : Char} (sep : Text.isBlank c = true ∨ c = '.') (xs ys : List Char) :
    IsFree (xs ++ c :: ys) ↔ IsFree xs ∧ IsFree ys := by
  simp only [IsFree]
  rw [Text.splitChars_append_sep _ _ (by simpa using sep), List.forall_mem_append]

theorem isFree_nil : IsFree [] := List.forall_mem_singleton.2 (by decide)

theorem IsGap.isFree_append (blank : IsGap gap) (free : IsFree cs) : IsFree (gap ++ cs) := by
  induction gap with
  | nil => exact free
  | cons c gap ih =>
    obtain ⟨first, later⟩ := List.forall_mem_cons.1 blank
    exact (isFree_append_sep (.inl first) [] _).2 ⟨isFree_nil, ih later⟩

theorem IsName.append (one : IsName s) (other : IsName t) (blank : IsGap gap)
    (dot : s.toList.getLast? = some '.' ∨ t.toList.head? = some '.') :
    IsName (String.ofList (s.toList ++ gap ++ t.toList)) := by
  have free : IsFree (s.toList ++ gap ++ t.toList) := by
    cases gap with
    | cons c gap =>
      obtain ⟨first, later⟩ := List.forall_mem_cons.1 blank
      rw [List.append_assoc, List.cons_append, isFree_append_sep (.inl first)]
      exact ⟨one.free, IsGap.isFree_append later other.free⟩
    | nil =>
      rw [List.append_nil]
      rcases dot with last | first
      · obtain ⟨front, parts⟩ := List.getLast?_eq_some_iff.1 last
        have free := one.free
        rw [parts, isFree_append_sep (.inr rfl)] at free
        rw [parts, List.append_assoc, List.singleton_append, isFree_append_sep (.inr rfl)]
        exact ⟨free.1, other.free⟩
      · obtain ⟨back, parts⟩ := List.head?_eq_some_iff.1 first
        have free := other.free
        rw [parts, ← List.nil_append ('.' :: back), isFree_append_sep (.inr rfl)] at free
        rw [parts, isFree_append_sep (.inr rfl)]
        exact ⟨one.free, free.2⟩
  have plain : ∀ c ∈ gap, c ∉ [',', '(', ')'] := by
    intro c member bad
    have space := blank c member
    simp only [List.mem_cons, List.not_mem_nil, or_false] at bad
    rcases bad with rfl | rfl | rfl <;> cases space
  constructor
  · simp [one.filled]
  · intro c first
    have head := List.head?_eq_some_head one.filled
    rw [String.toList_ofList, List.append_assoc, List.head?_append, head] at first
    exact one.first c (head.trans first)
  · intro c last
    have ends := List.getLast?_eq_some_getLast other.filled
    rw [String.toList_ofList, List.getLast?_append, ends] at last
    exact other.last c (ends.trans last)
  · rw [String.toList_ofList]
    exact List.forall_mem_append.2 ⟨List.forall_mem_append.2 ⟨one.plain, plain⟩, other.plain⟩
  · rwa [String.toList_ofList]

theorem isName_of_solid (filled : s.toList ≠ []) (solid : ∀ c ∈ s.toList, Text.isBlank c = false)
    (plain : ∀ c ∈ s.toList, c ∉ ['.', ',', '(', ')']) (other : s ≠ "as" ∧ s ≠ "import") :
    IsName s where
  filled := filled
  first c member := solid c (List.mem_of_mem_head? member)
  last c member := solid c (List.mem_of_getLast? member)
  plain c member bad := plain c member (List.mem_cons_of_mem _ bad)
  free := by
    have others : ∀ c ∈ s.toList, (Text.isBlank c || c == '.') = false := by
      intro c member
      have dot : c ≠ '.' := fun same => plain c member (same ▸ List.mem_cons_self)
      simp [solid c member, dot]
    rw [IsFree, Text.splitChars_of_others others]
    refine List.forall_mem_singleton.2 ?_
    exact ⟨fun same => other.1 (String.toList_inj.1 same),
      fun same => other.2 (String.toList_inj.1 same)⟩

theorem isName_of_nameScan {word : List Char} (makes : nameScan.Makes word) (even : IsEven word) :
    IsName (String.ofList word) := by
  obtain ⟨text, n, taken, rfl⟩ := makes
  obtain ⟨m, inner, kept⟩ := Option.bind_eq_some_iff.1 taken
  split at kept
  · next free =>
    obtain rfl := Option.some.inj kept
    obtain ⟨xs, ys, parts, start, others⟩ := Scan.Makes.seq ⟨text, m, inner, rfl⟩
    obtain ⟨c, rfl, first⟩ := start.one
    have letters : ∀ d ∈ text.take m, isNameChar d = true := by
      rw [parts]
      refine List.forall_mem_append.2 ⟨List.forall_mem_singleton.2 ?_, others.run⟩
      rw [isNameChar, first, Bool.true_or]
    refine isName_of_solid ?_ ?_ ?_ ?_
    · simp [parts]
    · intro d member
      rw [String.toList_ofList] at member
      cases blank : Text.isBlank d with
      | false => rfl
      | true =>
        have letter := letters d member
        rcases even d member blank with rfl | rfl <;> exact absurd letter (by decide)
    · intro d member bad
      rw [String.toList_ofList] at member
      have letter := letters d member
      simp only [List.mem_cons, List.not_mem_nil, or_false] at bad
      rcases bad with rfl | rfl | rfl | rfl <;> exact absurd letter (by decide)
    · constructor <;>
      · intro same
        dsimp only at free
        rw [same] at free
        exact absurd free (by decide)
  · cases kept

structure NameRow (c : Cursor) (gap : List Char) (s : String) (xs : List Node) (stop : Cursor) :
    Prop where
  row : Row c gap s.toList xs stop
  shows : IsName s
  kinds : ∀ x ∈ xs, x.kind ∈ ["identifier", "."]

theorem NameRow.append (one : NameRow c gap s xs middle) (other : NameRow middle gap' t ys stop)
    (dot : s.toList.getLast? = some '.' ∨ t.toList.head? = some '.') :
    NameRow c gap (String.ofList (s.toList ++ gap' ++ t.toList)) (xs ++ ys) stop where
  row := by
    rw [String.toList_ofList]
    exact one.row.append other.row
  shows := one.shows.append other.shows other.row.blank dot
  kinds := List.forall_mem_append.2 ⟨one.kinds, other.kinds⟩

def ReadsNames (a : Rule Name) : Prop :=
  ∀ {c cs xs stop}, grammar.Spells a c cs xs stop → IsEven cs → ∃ gap s, NameRow c gap s xs stop

/-- One name, names between dots, and names that dots may stand in front of. -/
def nameRule : Rule Name := .leaf "identifier" nameScan

def path : Rule Name := Rule.separated (.sign ".") nameRule

def source : Rule Name := .alt (.seq (Rule.many1 (.sign ".")) (Rule.opt path)) path

theorem readsNames_nameRule : ReadsNames nameRule := by
  intro c cs xs stop spelled even
  cases spelled with
  | @leaf _ gap _ _ n led fits =>
    have word := isName_of_nameScan ⟨_, n, fits, rfl⟩ (List.forall_mem_append.1 even).2
    have solid : ∃ d ∈ ((grammar.lead c).2.rest.take n).head?, Text.isBlank d = false := by
      refine ⟨_, ?_, word.first _ (List.head?_eq_some_head word.filled)⟩
      simpa only [String.toList_ofList, Option.mem_def] using List.head?_eq_some_head word.filled
    obtain ⟨x, one, kind, row⟩ := row_of_take led even solid
    rw [one]
    refine ⟨gap, _, ?_, word, List.forall_mem_singleton.2 (by simp [kind])⟩
    rw [String.toList_ofList]
    exact row

theorem isName_dot : IsName "." where
  filled := by decide
  first := by
    rintro _ ⟨⟩
    decide
  last := by
    rintro _ ⟨⟩
    decide
  plain := List.forall_mem_singleton.2 (by decide)
  free := (isFree_append_sep (.inr rfl) [] []).2 ⟨isFree_nil, isFree_nil⟩

theorem nameRow_dot (spelled : grammar.Spells (.sign ".") c cs xs stop) (even : IsEven cs) :
    ∃ gap, NameRow c gap "." xs stop := by
  obtain ⟨gap, x, rfl, kind, row⟩ := row_sign spelled even ⟨'.', rfl, by decide⟩
  exact ⟨gap, row, isName_dot, List.forall_mem_singleton.2 (by simp [kind])⟩

theorem nameRow_many {ends : String → Prop}
    (step : ∀ {c middle stop gap cs s xs ys}, NameRow c gap s xs middle → ends s →
      grammar.Spells a middle cs ys stop → IsEven cs →
        ∃ t, NameRow c gap t (xs ++ ys) stop ∧ ends t)
    (one : NameRow c gap s xs middle) (first : ends s)
    (spelled : grammar.Spells (.many a) middle cs ys stop) (even : IsEven cs) :
    ∃ t, NameRow c gap t (xs ++ ys) stop ∧ ends t := by
  refine spelled.many_rec (motive := fun middle cs ys stop => IsEven cs → ∀ s xs,
    NameRow c gap s xs middle → ends s → ∃ t, NameRow c gap t (xs ++ ys) stop ∧ ends t)
    ?none ?more even s xs one first
  case none =>
    intro middle _ s xs one first
    rw [List.append_nil]
    exact ⟨s, one, first⟩
  case more =>
    intro middle next stop cs cs' ys ys' spelled ih even s xs one first
    obtain ⟨even, even'⟩ := List.forall_mem_append.1 even
    obtain ⟨t, longer, later⟩ := step one first spelled even
    rw [← List.append_assoc]
    exact ih even' t _ longer later

theorem readsNames_path : ReadsNames path := by
  intro c cs xs stop spelled even
  cases spelled with
  | seq name others =>
    obtain ⟨even, even'⟩ := List.forall_mem_append.1 even
    obtain ⟨gap, s, one⟩ := readsNames_nameRule name even
    have step {c middle stop gap cs s xs ys} (one : NameRow c gap s xs middle) (_ : True)
        (spelled : grammar.Spells (.seq (.sign ".") nameRule) middle cs ys stop)
        (even : IsEven cs) : ∃ t, NameRow c gap t (xs ++ ys) stop ∧ True := by
      cases spelled with
      | seq dot name =>
        obtain ⟨even, even'⟩ := List.forall_mem_append.1 even
        obtain ⟨gap', rowDot⟩ := nameRow_dot dot even
        obtain ⟨gap'', t, rowName⟩ := readsNames_nameRule name even'
        have dotted := one.append rowDot (.inr rfl)
        have last : (String.ofList (s.toList ++ gap' ++ ".".toList)).toList.getLast? =
            some '.' := by
          rw [String.toList_ofList, List.getLast?_append]
          rfl
        rw [← List.append_assoc]
        exact ⟨_, dotted.append rowName (.inl last), trivial⟩
    obtain ⟨t, whole, -⟩ := nameRow_many step one trivial others even'
    exact ⟨gap, t, whole⟩

theorem nameRow_dots (spelled : grammar.Spells (Rule.many1 (.sign ".")) c cs xs stop)
    (even : IsEven cs) : ∃ gap s, NameRow c gap s xs stop ∧ s.toList.getLast? = some '.' := by
  cases spelled with
  | seq first others =>
    obtain ⟨even, even'⟩ := List.forall_mem_append.1 even
    obtain ⟨gap, one⟩ := nameRow_dot first even
    refine ⟨gap, nameRow_many (fun one _ spelled even => ?_) one rfl others even'⟩
    obtain ⟨gap', rowDot⟩ := nameRow_dot spelled even
    refine ⟨_, one.append rowDot (.inr rfl), ?_⟩
    rw [String.toList_ofList, List.getLast?_append]
    rfl

theorem readsNames_source : ReadsNames source := by
  intro c cs xs stop spelled even
  cases spelled with
  | altRight plain => exact readsNames_path plain even
  | altLeft relative =>
    cases relative with
    | seq dots others =>
      obtain ⟨even, even'⟩ := List.forall_mem_append.1 even
      obtain ⟨gap, s, one, last⟩ := nameRow_dots dots even
      cases others with
      | altRight nothing =>
        cases nothing
        rw [List.append_nil]
        exact ⟨gap, s, one⟩
      | altLeft names =>
        obtain ⟨gap', t, other⟩ := readsNames_path names even'
        exact ⟨gap, _, one.append other (.inl last)⟩

end Names

/-! ## Keywords -/

def IsSpaced (n t : Node) : Prop :=
  n.chars[t.stop.offset - n.start.offset]? = some ' ' ∧
    (t.start.offset = n.start.offset ∨
      n.chars[t.start.offset - n.start.offset - 1]? = some ' ')

instance (n t : Node) : Decidable (IsSpaced n t) := inferInstanceAs (Decidable (_ ∧ _))

/-- Spaces stand beside all keywords of the statement. -/
def IsSpacedOut (n : Node) : Prop :=
  ∀ x ∈ n.children, x.kind ∈ ["from", "import", "as"] → IsSpaced n x

instance : DecidablePred IsSpacedOut := fun n => inferInstanceAs (Decidable (∀ x ∈ n.children, _))

structure Behind (n : Node) (front : List Char) (c : Cursor) : Prop where
  tail : n.tail = front ++ c.rest
  offset : c.place.offset = n.start.offset + front.length

section Keywords

variable {n x : Node} {c middle stop : Cursor} {front cs gap gap' body word : List Char}
  {xs : List Node} {s : String}

theorem Behind.append (behind : Behind n front c) (passed : c.Passes cs stop) :
    Behind n (front ++ cs) stop where
  tail := by rw [behind.tail, passed.text, List.append_assoc]
  offset := by rw [passed.offset, behind.offset, List.length_append, Nat.add_assoc]

theorem getElem?_tail_of_chars {i : Nat} {d : Char} (found : n.chars[i]? = some d) :
    n.tail[i]? = some d := by
  rw [Node.chars, List.getElem?_take] at found
  split at found
  · exact found
  · cases found

theorem IsSpaced.head? (spaced : IsSpaced n x) (behind : Behind n front stop)
    (ends : x.stop.offset = stop.place.offset) : stop.rest.head? = some ' ' := by
  have here := getElem?_tail_of_chars spaced.1
  have count : x.stop.offset - n.start.offset = front.length := by
    rw [ends, behind.offset]
    omega
  rwa [count, behind.tail, List.getElem?_append_right (Nat.le_refl _), Nat.sub_self,
    ← List.head?_eq_getElem?] at here

theorem IsSpaced.exists_gap (spaced : IsSpaced n x) (behind : Behind n front c)
    (solid : ∃ d ∈ front.getLast?, Text.isBlank d = false)
    (start : x.start.offset = c.place.offset + gap.length) (passed : gap <+: c.rest) :
    ∃ before, gap = before ++ [' '] := by
  obtain ⟨d, last, solid⟩ := solid
  obtain ⟨front, rfl⟩ := List.getLast?_eq_some_iff.1 last
  obtain ⟨rest, parts⟩ := passed
  have inside := spaced.2.resolve_left (by
    rw [start, behind.offset, List.length_append, List.length_singleton]
    omega)
  have here := getElem?_tail_of_chars inside
  rw [behind.tail, ← parts] at here
  rcases gap.eq_nil_or_concat with rfl | ⟨before, e, rfl⟩
  · have count : x.start.offset - n.start.offset - 1 = front.length := by
      rw [start, behind.offset, List.length_append, List.length_singleton, List.length_nil]
      omega
    rw [count, List.append_assoc, List.getElem?_append_right (Nat.le_refl _), Nat.sub_self] at here
    obtain rfl := Option.some.inj here
    cases solid
  · have count : x.start.offset - n.start.offset - 1 = (front ++ [d] ++ before).length := by
      rw [start, behind.offset]
      simp only [List.length_append, List.concat_eq_append, List.length_singleton]
      omega
    have parts : front ++ [d] ++ (before.concat e ++ rest) =
        front ++ [d] ++ before ++ (e :: rest) := by simp
    rw [count, parts, List.getElem?_append_right (Nat.le_refl _), Nat.sub_self] at here
    obtain rfl := Option.some.inj here
    exact ⟨before, List.concat_eq_append⟩

theorem Row.exists_gap (row : Row c gap body xs stop) (space : c.rest.head? = some ' ')
    (solid : ∃ d ∈ body.head?, Text.isBlank d = false) : ∃ after, gap = ' ' :: after := by
  rw [row.passes.text] at space
  cases gap with
  | nil =>
    obtain ⟨d, first, solid⟩ := solid
    rw [List.nil_append, List.head?_append, Option.mem_def.1 first] at space
    obtain rfl := Option.some.inj space
    cases solid
  | cons e after =>
    obtain rfl := Option.some.inj space
    exact ⟨after, rfl⟩

theorem IsName.head?_solid (shows : IsName s) : ∃ d ∈ s.toList.head?, Text.isBlank d = false :=
  ⟨_, List.head?_eq_some_head shows.filled, shows.first _ (List.head?_eq_some_head shows.filled)⟩

theorem IsName.getLast?_solid (shows : IsName s) :
    ∃ d ∈ s.toList.getLast?, Text.isBlank d = false :=
  ⟨_, List.getLast?_eq_some_getLast shows.filled,
    shows.last _ (List.getLast?_eq_some_getLast shows.filled)⟩

theorem NameRow.keyword (one : NameRow c gap s xs middle) (keyword : Row middle gap' word [x] stop)
    (behind : Behind n front c) (own : IsSpaced n x) :
    (∃ before, gap' = before ++ [' ']) ∧ stop.rest.head? = some ' ' := by
  obtain ⟨y, first, start, -⟩ := keyword.first
  obtain rfl := Option.some.inj first
  obtain ⟨z, last, ends⟩ := keyword.last
  obtain rfl := Option.some.inj last
  have here := behind.append one.row.passes
  have solid : ∃ d ∈ (front ++ (gap ++ s.toList)).getLast?, Text.isBlank d = false := by
    obtain ⟨d, last, solid⟩ := one.shows.getLast?_solid
    refine ⟨d, ?_, solid⟩
    rw [← List.append_assoc, List.getLast?_append, Option.mem_def.1 last]
    rfl
  have inside : gap' <+: middle.rest :=
    ⟨_, (keyword.passes.text.trans (List.append_assoc _ _ _)).symm⟩
  exact ⟨own.exists_gap here solid start inside, own.head? (here.append keyword.passes) ends⟩

end Keywords

end CodeOutline.Analysis.Python
