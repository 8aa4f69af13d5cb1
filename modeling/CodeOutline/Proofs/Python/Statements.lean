import CodeOutline.Analysis.Python
import CodeOutline.Proofs.Name.Splitting
import CodeOutline.Proofs.Text.Listings
import CodeOutline.Proofs.Text.Occurrence

/-!
Import statements and lines. A statement tells modules, or names of one module, each with the name
that it has here. A line that shows one statement, with spaces beside the keywords, is read as just
that.
-/

set_option autoImplicit false

namespace CodeOutline.Analysis.Python

open Syntax (Node)

/-! ## What a statement tells -/

/-- A module or a name that is imported, the name that it has here, and the text of both as it
stands in the statement. -/
structure Item where
  name : String
  localName : Option String
  spelling : String
deriving DecidableEq

inductive ImportStatement
  | modules (items : List Item)
  | names (source : String) (items : List Item)
deriving DecidableEq

def spellingOf (tokens : List Node) : String :=
  match tokens.head?, tokens.getLast? with
  | some first, some last =>
    String.ofList (first.tail.take (last.stop.offset - first.start.offset))
  | _, _ => ""

def itemOf? (tokens : List Node) : Option Item :=
  let behind := (tokens.dropWhile (·.kind != "as")).drop 1
  if tokens.isEmpty then none
  else some { name := spellingOf (tokens.takeWhile (·.kind != "as"))
              localName := if behind.isEmpty then none else some (spellingOf behind)
              spelling := spellingOf tokens }

def itemsOf (tokens : List Node) : List Item :=
  (tokens.splitOnP (·.kind == ",")).filterMap itemOf?

/-- The statement that the tokens of a node make. -/
def statementOf (n : Node) : ImportStatement :=
  let tokens := (n.children.filter (!·.isExtra)).drop 1
  if n.kind = "import_from_statement" then
    .names (spellingOf (tokens.takeWhile (·.kind != "import")))
      (itemsOf (((tokens.dropWhile (·.kind != "import")).drop 1).filter
        (fun t => t.kind != "(" && t.kind != ")")))
  else .modules (itemsOf tokens)

/-- The imports of a statement that a line shows. One name of a module keeps its local name; several
names stay together as they are spelled. -/
def ImportStatement.imports (number : Nat) (line : String) : ImportStatement → List ImportToken
  | .modules items => items.map (fun i =>
    { name := i.name, span := some (Text.placeInLine number line i.name),
      localName := i.localName })
  | .names source items =>
    let span := some (Text.placeInLine number line source)
    match items with
    | [i] => [{ name := source ++ ": " ++ i.name, span, localName := i.localName }]
    | _ => [{ name := source ++ ": " ++ ", ".intercalate (items.map Item.spelling), span }]

/-! ## How a statement is written -/

/-- Blanks, or nothing. -/
def IsGap (cs : List Char) : Prop := ∀ c ∈ cs, Text.isBlank c = true

/-- No part between blanks and dots is a keyword. -/
def IsFree (cs : List Char) : Prop :=
  ∀ part ∈ Text.splitChars (fun c => Text.isBlank c || c == '.') cs,
    part ≠ "as".toList ∧ part ≠ "import".toList

/-- What shows as one name in an import statement. It may have blanks beside its dots. -/
structure IsName (s : String) : Prop where
  filled : s.toList ≠ []
  first : ∀ c ∈ s.toList.head?, Text.isBlank c = false
  last : ∀ c ∈ s.toList.getLast?, Text.isBlank c = false
  plain : ∀ c ∈ s.toList, c ∉ [',', '(', ')']
  free : IsFree s.toList

/-- The names are spelled as they are, with spaces beside the keyword between them. -/
inductive Item.IsPlain : Item → Prop
  | own {name : String} (shows : IsName name) : IsPlain ⟨name, none, name⟩
  | renamed {name localName spelling : String} {before after : List Char} (shows : IsName name)
      (shows' : IsName localName) (gap : IsGap before) (gap' : IsGap after)
      (spelled : spelling.toList =
        name.toList ++ before ++ " as ".toList ++ (after ++ localName.toList)) :
      IsPlain ⟨name, some localName, spelling⟩

inductive Listing : List Item → List Char → Prop
  | last {i : Item} (plain : i.IsPlain) : Listing [i] i.spelling.toList
  | ended {i : Item} {gap : List Char} (plain : i.IsPlain) (blank : IsGap gap) :
      Listing [i] (i.spelling.toList ++ gap ++ [','])
  | cons {i : Item} {items : List Item} {gap gap' cs : List Char} (plain : i.IsPlain)
      (blank : IsGap gap) (blank' : IsGap gap') (others : Listing items cs) :
      Listing (i :: items) (i.spelling.toList ++ gap ++ ',' :: (gap' ++ cs))

inductive ImportStatement.IsWritten : ImportStatement → List Char → Prop
  | modules {items : List Item} {gap cs : List Char} (blank : IsGap gap)
      (listing : Listing items cs) : IsWritten (.modules items) ("import ".toList ++ (gap ++ cs))
  | names {source : String} {items : List Item} {gap gap' gap'' cs : List Char}
      (shows : IsName source) (blank : IsGap gap) (blank' : IsGap gap') (blank'' : IsGap gap'')
      (listing : Listing items cs) :
      IsWritten (.names source items)
        ("from ".toList ++ (gap ++ source.toList ++ gap' ++ " import ".toList ++ (gap'' ++ cs)))
  | inParens {source : String} {items : List Item} {gap gap' gap'' inner inner' cs : List Char}
      (shows : IsName source) (blank : IsGap gap) (blank' : IsGap gap') (blank'' : IsGap gap'')
      (blanks : IsGap inner) (blanks' : IsGap inner') (listing : Listing items cs) :
      IsWritten (.names source items)
        ("from ".toList ++ (gap ++ source.toList ++ gap' ++ " import ".toList ++
          (gap'' ++ ['('] ++ inner ++ cs ++ (inner' ++ [')']))))

/-! ## Words and gaps -/

section Words

open Text (wordChars splitChars isBlank wordChars_append_blank wordChars_of_solid)

variable {c : Char} {xs ys word name gap gap' : List Char}

theorem IsGap.wordChars_append (blank : IsGap gap) (xs : List Char) :
    wordChars (gap ++ xs) = wordChars xs := by
  induction gap with
  | nil => rfl
  | cons c gap ih =>
    obtain ⟨first, later⟩ := List.forall_mem_cons.1 blank
    exact (wordChars_append_blank [] (gap ++ xs) first).trans (ih later)

theorem wordChars_concat_ne_nil (xs : List Char) (solid : isBlank c = false) :
    wordChars (xs ++ [c]) ≠ [] := by
  obtain ⟨pieces, last, split⟩ :=
    (splitChars isBlank (xs ++ [c])).eq_nil_or_concat.resolve_left (Text.splitChars_ne_nil _ _)
  have filled := Text.getLast?_splitChars_concat xs solid
  rw [List.concat_eq_append] at split
  rw [split, List.getLast?_concat, Ne, Option.some_inj] at filled
  rw [wordChars, split, List.filter_append]
  exact List.append_ne_nil_of_right_ne_nil _ (by simp [filled])

theorem wordChars_append_gap (xs : List Char) (blank : IsGap gap) :
    wordChars (xs ++ gap) = wordChars xs := by
  cases gap with
  | nil => rw [List.append_nil]
  | cons c gap =>
    obtain ⟨first, later⟩ := List.forall_mem_cons.1 blank
    have nothing := IsGap.wordChars_append later []
    rw [List.append_nil] at nothing
    rw [wordChars_append_blank _ _ first, nothing]
    exact List.append_nil _

theorem wordChars_marked (filled : word ≠ []) (solid : word.any isBlank = false)
    (xs ys : List Char) :
    wordChars (xs ++ ' ' :: (word ++ [' ']) ++ ys) = wordChars xs ++ word :: wordChars ys := by
  have space : isBlank ' ' = true := by decide
  have parts : xs ++ ' ' :: (word ++ [' ']) ++ ys = xs ++ ' ' :: (word ++ ' ' :: ys) := by simp
  rw [parts, wordChars_append_blank _ _ space, wordChars_append_blank _ _ space,
    wordChars_of_solid filled (by simpa using solid)]
  rfl

theorem not_marked_infix (filled : word ≠ []) (solid : word.any isBlank = false)
    (absent : word ∉ wordChars name) (blank : IsGap gap) (blank' : IsGap gap') :
    ¬(' ' :: (word ++ [' ']) <:+: gap ++ name ++ gap' ++ ' ' :: word) := by
  rintro ⟨front, behind, whole⟩
  have space : isBlank ' ' = true := by decide
  have words : wordChars (gap ++ name ++ gap' ++ ' ' :: word) = wordChars name ++ [word] := by
    rw [wordChars_append_blank _ _ space, wordChars_of_solid filled (by simpa using solid),
      wordChars_append_gap _ blank', blank.wordChars_append]
  rw [← whole, wordChars_marked filled solid] at words
  rcases (wordChars behind).eq_nil_or_concat with none_ | ⟨others, last, ends⟩
  · -- The word that is found is the last one, but the text does not end in a blank.
    obtain ⟨letters, c, rfl⟩ := word.eq_nil_or_concat.resolve_left filled
    have solid : isBlank c = false := by simpa using List.any_eq_false.1 solid c (by simp)
    rcases behind.eq_nil_or_concat with rfl | ⟨behind, d, rfl⟩
    · have ends : (front ++ ' ' :: (letters ++ [c])) ++ [' '] =
          (gap ++ name ++ gap' ++ ' ' :: letters) ++ [c] := by simpa using whole
      obtain rfl := List.singleton_inj.1 (List.append_inj' ends rfl).2
      cases solid
    · have ends : (front ++ ' ' :: (letters ++ c :: ' ' :: behind)) ++ [d] =
          (gap ++ name ++ gap' ++ ' ' :: letters) ++ [c] := by simpa using whole
      obtain rfl := List.singleton_inj.1 (List.append_inj' ends rfl).2
      exact wordChars_concat_ne_nil behind solid (by simpa using none_)
  · rw [ends, List.concat_eq_append, ← List.cons_append, ← List.append_assoc] at words
    refine absent ?_
    rw [← (List.append_inj' words rfl).1]
    simp

theorem cutFirst?_marked (filled : word ≠ []) (solid : word.any isBlank = false)
    (absent : word ∉ wordChars name) (blank : IsGap gap) (blank' : IsGap gap')
    (after : List Char) :
    Text.cutFirst? (' ' :: (word ++ [' ']))
        (gap ++ name ++ gap' ++ ' ' :: (word ++ [' ']) ++ after) =
      some (gap ++ name ++ gap', after) := by
  rw [List.append_assoc]
  refine Text.cutFirst?_of_first ?_ after
  have ahead : (' ' :: (word ++ [' '])).dropLast = ' ' :: word := by
    rw [← List.cons_append, List.dropLast_concat]
  rw [ahead]
  exact not_marked_infix filled solid absent blank blank'

theorem not_mem_wordChars (free : IsFree name) (solid : '.' ∉ word)
    (keyword : word = "as".toList ∨ word = "import".toList) : word ∉ wordChars name := by
  intro member
  have whole : splitChars (· == '.') word = [word] :=
    Text.splitChars_of_others fun c inside =>
      beq_eq_false_iff_ne.2 fun same => solid (same ▸ inside)
  have part : word ∈ splitChars (fun c => isBlank c || c == '.') name := by
    rw [Text.splitChars_or]
    exact List.mem_flatMap.2 ⟨word, List.mem_of_mem_filter member, by simp [whole]⟩
  exact keyword.elim (free word part).1 (free word part).2

theorem trimChars_between (blank : IsGap gap) (blank' : IsGap gap')
    (first : ∀ c ∈ xs.head?, isBlank c = false) (last : ∀ c ∈ xs.getLast?, isBlank c = false) :
    Text.trimChars (gap ++ xs ++ gap') = xs := by
  rw [List.append_assoc, Text.blanks_append_trimChars blank, Text.trimChars_append_blanks _ blank',
    Text.trimChars_of_ends first last]

end Words

/-! ## Reading items -/

namespace IsName

variable {s : String}

theorem trim_between {gap gap' : List Char} (shows : IsName s) (blank : IsGap gap)
    (blank' : IsGap gap') : Text.trim (String.ofList (gap ++ s.toList ++ gap')) = s := by
  rw [Text.trim, String.toList_ofList, trimChars_between blank blank' shows.first shows.last,
    String.ofList_toList]

end IsName

namespace Item.IsPlain

variable {i : Item} {c : Char} (plain : i.IsPlain)

include plain

theorem head? : ∃ c, i.spelling.toList.head? = some c ∧
    Text.isBlank c = false ∧ c ∉ [',', '(', ')'] := by
  cases plain with
  | @own name shows =>
    have head := List.head?_eq_some_head shows.filled
    exact ⟨_, head, shows.first _ head, shows.plain _ (List.head_mem shows.filled)⟩
  | @renamed name _ _ _ _ shows _ _ _ spelled =>
    have head := List.head?_eq_some_head shows.filled
    refine ⟨_, ?_, shows.first _ head, shows.plain _ (List.head_mem shows.filled)⟩
    simp only [spelled, List.append_assoc, List.head?_append, head, Option.some_or]

theorem getLast? : ∃ c, i.spelling.toList.getLast? = some c ∧
    Text.isBlank c = false ∧ c ∉ [',', '(', ')'] := by
  cases plain with
  | @own name shows =>
    have last := List.getLast?_eq_some_getLast shows.filled
    exact ⟨_, last, shows.last _ last, shows.plain _ (List.getLast_mem shows.filled)⟩
  | @renamed _ localName _ _ _ _ shows' _ _ spelled =>
    have last := List.getLast?_eq_some_getLast shows'.filled
    refine ⟨_, ?_, shows'.last _ last, shows'.plain _ (List.getLast_mem shows'.filled)⟩
    rw [spelled, List.getLast?_append, List.getLast?_append, last]
    rfl

theorem trimChars_between {gap gap' : List Char} (blank : IsGap gap) (blank' : IsGap gap') :
    Text.trimChars (gap ++ i.spelling.toList ++ gap') = i.spelling.toList := by
  refine Python.trimChars_between blank blank' (fun c first => ?_) (fun c last => ?_)
  · obtain ⟨d, head, solid, -⟩ := plain.head?
    obtain rfl := Option.some.inj (head.symm.trans first)
    exact solid
  · obtain ⟨d, ends, solid, -⟩ := plain.getLast?
    obtain rfl := Option.some.inj (ends.symm.trans last)
    exact solid

theorem not_comma_mem : ',' ∉ i.spelling.toList := by
  have apart {gap : List Char} (blank : IsGap gap) : ',' ∉ gap :=
    fun member => absurd (blank _ member) (by decide)
  have free {name : String} (shows : IsName name) : ',' ∉ name.toList :=
    fun member => shows.plain _ member (by decide)
  cases plain with
  | own shows => exact free shows
  | renamed shows shows' gap gap' spelled =>
    rw [spelled]
    simp only [List.mem_append, not_or]
    exact ⟨⟨⟨free shows, apart gap⟩, by decide⟩, apart gap', free shows'⟩

theorem cut?_as :
    (cut? i.spelling " as ").map (fun parts => (Text.trim parts.1, Text.trim parts.2)) =
      i.localName.map (fun localName => (i.name, localName)) := by
  have nothing : IsGap [] := List.forall_mem_nil _
  cases plain with
  | @own name shows =>
    have absent : cut? name " as " = none := by
      rw [cut?, Option.map_eq_none_iff, Option.eq_none_iff_forall_ne_some]
      intro parts cut
      have filled : "as".toList ≠ [] := by decide
      have words := wordChars_marked filled (by decide) parts.1 parts.2
      refine not_mem_wordChars shows.free (by decide) (.inl rfl) ?_
      rw [← Text.append_of_cutFirst? cut]
      exact words.symm ▸ by simp
    rw [absent]
    rfl
  | @renamed name localName spelling before after shows shows' gap gap' spelled =>
    have absent : "as".toList ∉ Text.wordChars name.toList :=
      not_mem_wordChars shows.free (by decide) (.inl rfl)
    have cut :=
      cutFirst?_marked (by decide) (by decide) absent nothing gap (after ++ localName.toList)
    rw [List.nil_append] at cut
    have whole : cut? spelling " as " = some (String.ofList (name.toList ++ before),
        String.ofList (after ++ localName.toList)) := by
      rw [cut?, spelled]
      exact congrArg (Option.map _) cut
    have front := shows.trim_between nothing gap
    have back := shows'.trim_between gap' nothing
    rw [List.nil_append] at front
    rw [List.append_nil] at back
    rw [whole, Option.map_some, front, back]
    rfl

end Item.IsPlain

theorem listed_append_comma (xs ys : List Char) :
    listed (String.ofList (xs ++ ',' :: ys)) =
      listed (String.ofList xs) ++ listed (String.ofList ys) := by
  simp only [listed, Text.splitAt, String.toList_ofList]
  rw [Text.splitChars_append_sep _ _ (by decide), List.map_append, List.map_append,
    List.filter_append]

theorem listed_item {i : Item} (plain : i.IsPlain) {gap gap' : List Char} (blank : IsGap gap)
    (blank' : IsGap gap') :
    listed (String.ofList (gap ++ i.spelling.toList ++ gap')) = [i.spelling] := by
  have apart {gap : List Char} (blank : IsGap gap) : ',' ∉ gap :=
    fun member => absurd (blank _ member) (by decide)
  have whole : ∀ c ∈ gap ++ i.spelling.toList ++ gap', (c == ',') = false := by
    intro c member
    refine beq_eq_false_iff_ne.2 ?_
    rintro rfl
    simp only [List.mem_append] at member
    rcases member with (front | inside) | back
    · exact apart blank front
    · exact plain.not_comma_mem inside
    · exact apart blank' back
  have filled : (!i.spelling.isEmpty) = true := by
    obtain ⟨c, head, -⟩ := plain.head?
    have some_ : i.spelling ≠ "" := by
      intro nothing
      simp [nothing] at head
    simpa using some_
  rw [listed, Text.splitAt, String.toList_ofList, Text.splitChars_of_others whole]
  simp only [List.map_cons, List.map_nil, Text.trim, String.toList_ofList,
    plain.trimChars_between blank blank', String.ofList_toList]
  exact List.filter_cons_of_pos filled

theorem Listing.listed {items : List Item} {cs gap : List Char} (listing : Listing items cs)
    (blank : IsGap gap) :
    Python.listed (String.ofList (gap ++ cs)) = items.map Item.spelling := by
  have nothing : IsGap [] := List.forall_mem_nil _
  induction listing generalizing gap with
  | last plain =>
    have one := listed_item plain blank nothing
    rwa [List.append_nil] at one
  | @ended i gap' plain blank' =>
    have parts := listed_append_comma (gap ++ i.spelling.toList ++ gap') []
    have none_ : Python.listed (String.ofList []) = [] := rfl
    rw [listed_item plain blank blank', none_] at parts
    simpa using parts
  | @cons i items gap' gap'' cs plain blank' between others ih =>
    have parts := listed_append_comma (gap ++ i.spelling.toList ++ gap') (gap'' ++ cs)
    rw [listed_item plain blank blank', ih between] at parts
    simpa using parts

/-! ## Reading statements -/

namespace Listing

variable {items : List Item} {cs gap gap' : List Char}

theorem plain (listing : Listing items cs) : ∀ i ∈ items, i.IsPlain := by
  induction listing with
  | last plain | ended plain => exact List.forall_mem_singleton.2 plain
  | cons plain _ _ _ ih => exact List.forall_mem_cons.2 ⟨plain, ih⟩

theorem ne_nil (listing : Listing items cs) : items ≠ [] := by
  rintro rfl
  cases listing

theorem head? (listing : Listing items cs) : ∃ c, cs.head? = some c ∧
    Text.isBlank c = false ∧ c ∉ ['(', ')'] := by
  have first {i : Item} (plain : i.IsPlain) (behind : List Char) :
      ∃ c, (i.spelling.toList ++ behind).head? = some c ∧
        Text.isBlank c = false ∧ c ∉ ['(', ')'] := by
    obtain ⟨c, head, solid, other⟩ := plain.head?
    refine ⟨c, by rw [List.head?_append, head]; rfl, solid, ?_⟩
    exact fun member => other (List.mem_cons_of_mem _ member)
  cases listing with
  | last plain =>
    have head := first plain []
    rwa [List.append_nil] at head
  | ended plain blank =>
    rw [List.append_assoc]
    exact first plain _
  | cons plain =>
    rw [List.append_assoc]
    exact first plain _

theorem getLast? (listing : Listing items cs) : ∃ c, cs.getLast? = some c ∧
    Text.isBlank c = false ∧ c ∉ ['(', ')'] := by
  induction listing with
  | last plain =>
    obtain ⟨c, last, solid, other⟩ := plain.getLast?
    exact ⟨c, last, solid, fun member => other (List.mem_cons_of_mem _ member)⟩
  | ended => exact ⟨',', List.getLast?_concat, by decide, by decide⟩
  | cons _ _ _ _ ih =>
    obtain ⟨c, last, both⟩ := ih
    refine ⟨c, ?_, both⟩
    rw [List.getLast?_append, List.getLast?_cons, List.getLast?_append, last]
    rfl

end Listing

section Reading

variable {s : ImportStatement} {i : Item} {items : List Item} {line : String}
  {cs front back indent behind : List Char}

theorem dropParens_between (listing : Listing items cs)
    (outer : ∀ c ∈ front, c ∈ ['(', ')'] ∨ Text.isBlank c = true)
    (outer' : ∀ c ∈ back, c ∈ ['(', ')'] ∨ Text.isBlank c = true) :
    dropParens (String.ofList (front ++ cs ++ back)) = String.ofList cs := by
  have goes {c : Char} (outer : c ∈ ['(', ')'] ∨ Text.isBlank c = true) :
      (c == '(' || c == ')' || Text.isBlank c) = true := by simpa [or_assoc] using outer
  have stays {c : Char} (inner : Text.isBlank c = false ∧ c ∉ ['(', ')']) :
      ¬(c == '(' || c == ')' || Text.isBlank c) = true := by simpa [and_comm] using inner
  obtain ⟨c, first, inner⟩ := listing.head?
  obtain ⟨d, last, inner'⟩ := listing.getLast?
  obtain ⟨rest, begins⟩ := List.head?_eq_some_iff.1 first
  obtain ⟨start, ends⟩ := List.getLast?_eq_some_iff.1 last
  have left : Text.dropLeft (fun c => c == '(' || c == ')' || Text.isBlank c)
      (String.ofList (front ++ cs ++ back)) = String.ofList (cs ++ back) := by
    rw [Text.dropLeft, String.toList_ofList, List.append_assoc,
      List.dropWhile_append_of_pos (fun c member => goes (outer c member)), begins,
      List.cons_append,
      List.dropWhile_cons_of_neg (p := fun c => c == '(' || c == ')' || Text.isBlank c)
        (stays inner)]
  rw [dropParens, left, Text.dropRight, String.toList_ofList, List.reverse_append,
    List.dropWhile_append_of_pos (fun c member => goes (outer' c (List.mem_reverse.1 member))),
    ends, List.reverse_append, List.reverse_singleton, List.singleton_append,
    List.dropWhile_cons_of_neg (p := fun c => c == '(' || c == ')' || Text.isBlank c)
      (stays inner'), List.reverse_cons, List.reverse_reverse]

theorem plainImport_spelling (plain : i.IsPlain) (number : Nat) (line : String) :
    plainImport number line i.spelling =
      { name := i.name, span := some (Text.placeInLine number line i.name),
        localName := i.localName } := by
  have cut := plain.cut?_as
  unfold plainImport
  cases plain with
  | own =>
    rw [Option.map_eq_none_iff.1 cut]
  | renamed =>
    obtain ⟨parts, found, both⟩ := Option.map_eq_some_iff.1 cut
    obtain ⟨name, localName⟩ := Prod.mk.inj both
    rw [found]
    simp only [name, localName]

theorem fromImport_listing (listing : Listing items cs) {names padded source : String}
    (trimmed : Text.trim padded = source) (dropped : dropParens names = String.ofList cs)
    (number : Nat) (line : String) : [fromImport number line padded names] =
      (ImportStatement.names source items).imports number line := by
  have nothing : IsGap [] := List.forall_mem_nil _
  have parts := listing.listed nothing
  rw [List.nil_append, ← dropped] at parts
  have all := listing.plain
  unfold fromImport
  rcases items with _ | ⟨i, _ | ⟨j, more⟩⟩
  · exact absurd rfl listing.ne_nil
  · have plain := all i (List.mem_singleton_self i)
    have cut := plain.cut?_as
    simp only [parts, trimmed, List.map_cons, List.map_nil]
    cases plain with
    | own =>
      simp only [Option.map_eq_none_iff.1 cut]
      rfl
    | renamed =>
      obtain ⟨parts, found, both⟩ := Option.map_eq_some_iff.1 cut
      obtain ⟨name, localName⟩ := Prod.mk.inj both
      simp only [found, name, localName]
      rfl
  · simp only [parts, trimmed, List.map_cons]
    cases cut? i.spelling " as " <;> rfl

theorem lineImports_of_import {rest : List Char} (number : Nat)
    (trimmed : (Text.trim line).toList = "import ".toList ++ rest) :
    lineImports number line = (listed (String.ofList rest)).map (plainImport number line) := by
  have word : Text.contains (Text.trim line) "import " = true := by
    rw [Text.contains_iff, trimmed]
    exact (List.prefix_append _ _).isInfix
  have other : Text.startsWith (Text.trim line) "#" = false := by
    rw [Text.startsWith, trimmed]
    rfl
  have other' : Text.afterStart? "from " (Text.trim line) = none := by
    rw [Text.afterStart?, trimmed]
    rfl
  have begins : Text.afterStart? "import " (Text.trim line) = some (String.ofList rest) := by
    rw [Text.afterStart?, trimmed, Syntax.Scan.dropStart?_append, Option.map_some]
  unfold lineImports
  simp only [word, other, other', begins, Bool.not_true, Bool.or_false, Bool.false_eq_true,
    if_false]

theorem lineImports_of_from {rest names source : String} (number : Nat)
    (trimmed : (Text.trim line).toList = "from ".toList ++ rest.toList)
    (cut : cut? rest " import " = some (source, names)) :
    lineImports number line = [fromImport number line source names] := by
  have word : Text.contains (Text.trim line) "import " = true := by
    obtain ⟨⟨before, after⟩, found, -⟩ := Option.map_eq_some_iff.1 cut
    have inside : "import ".toList <:+: rest.toList := by
      rw [← Text.append_of_cutFirst? found]
      exact ⟨before ++ [' '], after, by simp⟩
    rw [Text.contains_iff, trimmed]
    exact inside.trans (List.suffix_append _ _).isInfix
  have other : Text.startsWith (Text.trim line) "#" = false := by
    rw [Text.startsWith, trimmed]
    rfl
  have begins : Text.afterStart? "from " (Text.trim line) = some rest := by
    rw [Text.afterStart?, trimmed, Syntax.Scan.dropStart?_append, Option.map_some,
      String.ofList_toList]
  unfold lineImports
  simp only [word, other, begins, cut, Bool.not_true, Bool.or_false, Bool.false_eq_true, if_false]

theorem cut?_import {rest source : String} {gap gap' after : List Char} (shows : IsName source)
    (blank : IsGap gap) (blank' : IsGap gap')
    (parts : rest.toList = gap ++ source.toList ++ gap' ++ " import ".toList ++ after) :
    cut? rest " import " =
      some (String.ofList (gap ++ source.toList ++ gap'), String.ofList after) := by
  have absent : "import".toList ∉ Text.wordChars source.toList :=
    not_mem_wordChars shows.free (by decide) (.inr rfl)
  rw [cut?, parts]
  exact congrArg (Option.map _)
    (cutFirst?_marked (by decide) (by decide) absent blank blank' after)

theorem lineImports_of_isWritten (written : s.IsWritten cs)
    (trimmed : (Text.trim line).toList = cs) (number : Nat) :
    lineImports number line = s.imports number line := by
  cases written with
  | modules blank listing =>
    rw [lineImports_of_import number trimmed, listing.listed blank, List.map_map]
    refine List.map_congr_left (fun i member => ?_)
    exact plainImport_spelling (listing.plain i member) number line
  | @names source items gap gap' gap'' cs shows blank blank' blank'' listing =>
    obtain ⟨rest, parts⟩ : ∃ rest : String, rest.toList =
      gap ++ source.toList ++ gap' ++ " import ".toList ++ (gap'' ++ cs) :=
        ⟨_, String.toList_ofList⟩
    rw [lineImports_of_from number (by rw [trimmed, parts]) (cut?_import shows blank blank' parts)]
    refine fromImport_listing listing (shows.trim_between blank blank') ?_ number line
    have dropped := dropParens_between listing (fun c member => .inr (blank'' c member))
      (List.forall_mem_nil _)
    rwa [List.append_nil] at dropped
  | @inParens source items gap gap' gap'' inner inner' cs shows blank blank' blank'' blanks blanks'
      listing =>
    obtain ⟨rest, parts⟩ : ∃ rest : String, rest.toList =
      gap ++ source.toList ++ gap' ++ " import ".toList ++
        (gap'' ++ ['('] ++ inner ++ cs ++ (inner' ++ [')'])) := ⟨_, String.toList_ofList⟩
    rw [lineImports_of_from number (by rw [trimmed, parts]) (cut?_import shows blank blank' parts)]
    refine fromImport_listing listing (shows.trim_between blank blank') ?_ number line
    have outer {gap : List Char} (blank : IsGap gap) :
        ∀ c ∈ gap, c ∈ ['(', ')'] ∨ Text.isBlank c = true := fun c member => .inr (blank c member)
    have parenthesis {c : Char} (member : c ∈ ['(', ')']) :
        ∀ d ∈ [c], d ∈ ['(', ')'] ∨ Text.isBlank d = true :=
      List.forall_mem_singleton.2 (.inl member)
    refine dropParens_between listing ?front ?back
    case front =>
      exact List.forall_mem_append.2
        ⟨List.forall_mem_append.2 ⟨outer blank'', parenthesis (by simp)⟩, outer blanks⟩
    case back =>
      exact List.forall_mem_append.2 ⟨outer blanks', parenthesis (by simp)⟩

end Reading

end CodeOutline.Analysis.Python
