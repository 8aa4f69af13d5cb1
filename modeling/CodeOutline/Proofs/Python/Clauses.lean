import CodeOutline.Proofs.Python.Tokens

/-!
Import statements as the grammar has them. In a document that is read, a statement with spaces and
tabs as its blanks and with spaces beside its keywords is written as it tells.
-/

set_option autoImplicit false

namespace CodeOutline.Analysis.Python

open Syntax
open Grammar.Python (Name grammar)

/-! ## Items -/

section Items

variable {n x : Node} {c middle next stop : Cursor} {front cs gap gap' gap'' body : List Char}
  {xs ys : List Node} {a : Rule Name} {s t : String} {i : Item}

/-- A name that may have another name here. -/
def renamed (a : Rule Name) : Rule Name := .seq a (Rule.opt (.seq (.word "as") nameRule))

structure ItemRow (c : Cursor) (gap : List Char) (i : Item) (xs : List Node) (stop : Cursor) :
    Prop where
  row : Row c gap i.spelling.toList xs stop
  item : itemOf? xs = some i
  plain : i.IsPlain
  kinds : ∀ x ∈ xs, x.kind ∈ ["identifier", ".", "as", "*"]

theorem NameRow.kind_ne (one : NameRow c gap s xs stop) (kind : String)
    (other : kind ∉ ["identifier", "."]) : ∀ x ∈ xs, (x.kind != kind) = true := by
  intro x member
  have ne : x.kind ≠ kind := fun same => other (same ▸ one.kinds x member)
  simpa using ne

theorem NameRow.itemRow (one : NameRow c gap s xs stop) : ItemRow c gap ⟨s, none, s⟩ xs stop where
  row := one.row
  item := by
    have filled : xs.isEmpty = false := by simpa using one.row.ne_nil
    have all := one.kind_ne "as" (by decide)
    have front : xs.takeWhile (·.kind != "as") = xs := List.takeWhile_eq_self_iff.2 all
    have back : xs.dropWhile (·.kind != "as") = [] := List.dropWhile_eq_nil_iff.2 all
    have spelling : spellingOf xs = s := by rw [one.row.spellingOf_eq, String.ofList_toList]
    simp [itemOf?, filled, front, back, spelling]
  plain := .own one.shows
  kinds x member := by
    have kind := one.kinds x member
    simp only [List.mem_cons, List.not_mem_nil, or_false] at kind ⊢
    exact kind.imp id (fun dot => .inl dot)

theorem NameRow.itemRow_renamed (one : NameRow c gap s xs middle) (kind : x.kind = "as")
    (keyword : Row middle gap' "as".toList [x] next) (other : NameRow next gap'' t ys stop)
    (before : ∃ before, gap' = before ++ [' ']) (after : ∃ after, gap'' = ' ' :: after) :
    ∃ i, ItemRow c gap i (xs ++ (x :: ys)) stop := by
  obtain ⟨before, rfl⟩ := before
  obtain ⟨after, rfl⟩ := after
  have row := (one.row.append keyword).append other.row
  rw [List.append_assoc xs, List.singleton_append] at row
  refine ⟨⟨s, some t, String.ofList (s.toList ++ (before ++ [' ']) ++ "as".toList ++
    ' ' :: after ++ t.toList)⟩, ?row, ?item, ?plain, ?kinds⟩
  case row =>
    rw [String.toList_ofList]
    exact row
  case item =>
    have all := one.kind_ne "as" (by decide)
    have front : (xs ++ x :: ys).takeWhile (·.kind != "as") = xs := by
      rw [List.takeWhile_append_of_pos all, List.takeWhile_cons_of_neg (by simp [kind]),
        List.append_nil]
    have back : (xs ++ x :: ys).dropWhile (·.kind != "as") = x :: ys := by
      rw [List.dropWhile_append_of_pos all, List.dropWhile_cons_of_neg (by simp [kind])]
    have name : spellingOf xs = s := by rw [one.row.spellingOf_eq, String.ofList_toList]
    have localName : spellingOf ys = t := by rw [other.row.spellingOf_eq, String.ofList_toList]
    have filled : ys.isEmpty = false := by simpa using other.row.ne_nil
    simp [itemOf?, front, back, name, localName, filled, row.spellingOf_eq]
  case plain =>
    have gap := List.forall_mem_append.1 keyword.blank
    have gap' := List.forall_mem_cons.1 other.row.blank
    refine .renamed one.shows other.shows gap.1 gap'.2 ?_
    rw [String.toList_ofList]
    have word : " as ".toList = ' ' :: ("as".toList ++ [' ']) := rfl
    rw [word]
    simp only [List.append_assoc, List.cons_append, List.nil_append]
  case kinds =>
    have names {y : Node} (kind : y.kind ∈ ["identifier", "."]) :
        y.kind ∈ ["identifier", ".", "as", "*"] := by
      simp only [List.mem_cons, List.not_mem_nil, or_false] at kind ⊢
      exact kind.imp id (fun dot => .inl dot)
    refine List.forall_mem_append.2 ⟨fun y member => names (one.kinds y member), ?_⟩
    exact List.forall_mem_cons.2 ⟨by simp [kind], fun y member => names (other.kinds y member)⟩

theorem exists_itemRow (names : ReadsNames a) (spelled : grammar.Spells (renamed a) c cs xs stop)
    (even : IsEven cs) (behind : Behind n front c)
    (spaced : ∀ x ∈ xs, x.kind = "as" → IsSpaced n x) :
    ∃ gap i, ItemRow c gap i xs stop := by
  cases spelled with
  | seq name other =>
    obtain ⟨even, even'⟩ := List.forall_mem_append.1 even
    obtain ⟨gap, s, one⟩ := names name even
    cases other with
    | altRight nothing =>
      cases nothing
      rw [List.append_nil]
      exact ⟨gap, _, one.itemRow⟩
    | altLeft other =>
      cases other with
      | seq word name =>
        obtain ⟨even, even'⟩ := List.forall_mem_append.1 even'
        obtain ⟨gap', x, rfl, kind, keyword⟩ := row_word word even ⟨'a', rfl, by decide⟩
        obtain ⟨gap'', t, other⟩ := readsNames_nameRule name even'
        obtain ⟨before, space⟩ := one.keyword keyword behind (spaced x (by simp) kind)
        have after := other.row.exists_gap space other.shows.head?_solid
        obtain ⟨i, item⟩ := one.itemRow_renamed kind keyword other before after
        exact ⟨gap, i, item⟩

theorem ItemRow.comma_free (one : ItemRow c gap i xs stop) :
    ∀ x ∈ xs, (x.kind == ",") = false := by
  intro x member
  refine beq_eq_false_iff_ne.2 fun same => ?_
  have kind := one.kinds x member
  rw [same] at kind
  exact absurd kind (by decide)

theorem ItemRow.itemsOf (one : ItemRow c gap i xs stop) : itemsOf xs = [i] := by
  rw [Python.itemsOf, List.splitOnP_eq_singleton one.comma_free]
  simp [one.item]

theorem ItemRow.itemsOf_append (one : ItemRow c gap i xs stop) (kind : x.kind = ",") :
    Python.itemsOf (xs ++ x :: ys) = i :: Python.itemsOf ys := by
  rw [Python.itemsOf, List.splitOnP_append_cons_of_forall_mem one.comma_free x (by simp [kind]),
    List.filterMap_cons_some one.item, Python.itemsOf]

theorem ItemRow.kind_not_mem (one : ItemRow c gap i xs stop) : ∀ x ∈ xs, x.kind ∉ ["(", ")"] := by
  intro x member bad
  have kind := one.kinds x member
  simp only [List.mem_cons, List.not_mem_nil, or_false] at kind bad
  rcases bad with same | same <;> (rw [same] at kind; exact absurd kind (by decide))

structure ListingRow (c : Cursor) (gap : List Char) (items : List Item) (body : List Char)
    (xs : List Node) (stop : Cursor) : Prop where
  row : Row c gap body xs stop
  told : itemsOf xs = items
  listing : Listing items body
  kinds : ∀ x ∈ xs, x.kind ∉ ["(", ")"]

theorem ItemRow.exists_listingRow {cs' : List Char} {zs : List Node} (names : ReadsNames a)
    (one : ItemRow c gap i xs middle)
    (others : grammar.Spells (.many (.seq (.sign ",") (renamed a))) middle cs ys next)
    (ended : grammar.Spells (Rule.opt (.sign ",")) next cs' zs stop) (even : IsEven cs)
    (even' : IsEven cs') (behind : Behind n front middle)
    (spaced : ∀ x ∈ ys, x.kind = "as" → IsSpaced n x) :
    ∃ items body, ListingRow c gap items body (xs ++ (ys ++ zs)) stop := by
  refine others.many_rec (motive := fun middle cs ys next => ∀ front c gap i xs,
    ItemRow c gap i xs middle → grammar.Spells (Rule.opt (.sign ",")) next cs' zs stop →
      IsEven cs → Behind n front middle → (∀ x ∈ ys, x.kind = "as" → IsSpaced n x) →
        ∃ items body, ListingRow c gap items body (xs ++ (ys ++ zs)) stop)
    ?none ?more front c gap i xs one ended even behind spaced
  case none =>
    intro middle front c gap i xs one ended _ _ _
    rw [List.nil_append]
    cases ended with
    | altRight nothing =>
      cases nothing
      rw [List.append_nil]
      exact ⟨[i], _, one.row, one.itemsOf, .last one.plain, one.kind_not_mem⟩
    | altLeft comma =>
      obtain ⟨gap', x, rfl, kind, comma⟩ := row_sign comma even' ⟨',', rfl, by decide⟩
      refine ⟨[i], _, one.row.append comma, one.itemsOf_append kind, .ended one.plain comma.blank,
        List.forall_mem_append.2 ⟨one.kind_not_mem, List.forall_mem_singleton.2 ?_⟩⟩
      simp [kind]
  case more =>
    intro middle next' next cs cs' ys ys' spelled ih front c gap i xs one ended even behind spaced
    obtain ⟨even, even'⟩ := List.forall_mem_append.1 even
    obtain ⟨spaced, spaced'⟩ := List.forall_mem_append.1 spaced
    cases spelled with
    | seq comma item =>
      obtain ⟨even, even''⟩ := List.forall_mem_append.1 even
      obtain ⟨gap', x, rfl, kind, comma⟩ := row_sign comma even ⟨',', rfl, by decide⟩
      have behind := behind.append comma.passes
      obtain ⟨gap'', j, other⟩ := exists_itemRow names item even'' behind
        (List.forall_mem_append.1 spaced).2
      obtain ⟨items, body, rest⟩ := ih _ _ _ j _ other ended even'
        (behind.append other.row.passes) spaced'
      refine ⟨i :: items, i.spelling.toList ++ gap' ++ ',' :: (gap'' ++ body), ?row, ?told,
        .cons one.plain comma.blank rest.row.blank rest.listing, ?kinds⟩
      case row =>
        have row := (one.row.append comma).append rest.row
        simpa [List.append_assoc] using row
      case told =>
        rw [← rest.told]
        simpa using one.itemsOf_append kind
      case kinds =>
        simp only [List.forall_mem_append, List.forall_mem_singleton]
        have kinds := List.forall_mem_append.1 rest.kinds
        exact ⟨one.kind_not_mem, ⟨⟨by simp [kind], kinds.1⟩, (List.forall_mem_append.1 kinds.2).1⟩,
          (List.forall_mem_append.1 kinds.2).2⟩

theorem exists_listingRow (names : ReadsNames a)
    (spelled : grammar.Spells (Rule.commasEnd (renamed a)) c cs xs stop) (even : IsEven cs)
    (behind : Behind n front c) (spaced : ∀ x ∈ xs, x.kind = "as" → IsSpaced n x) :
    ∃ gap items body, ListingRow c gap items body xs stop := by
  cases spelled with
  | seq commas ended =>
    obtain ⟨even, even'⟩ := List.forall_mem_append.1 even
    obtain ⟨spaced, -⟩ := List.forall_mem_append.1 spaced
    cases commas with
    | seq first others =>
      obtain ⟨even, even''⟩ := List.forall_mem_append.1 even
      obtain ⟨spaced, spaced'⟩ := List.forall_mem_append.1 spaced
      obtain ⟨gap, i, one⟩ := exists_itemRow names first even behind spaced
      rw [List.append_assoc]
      exact ⟨gap, one.exists_listingRow names others ended even'' even'
        (behind.append one.row.passes) spaced'⟩

end Items

/-! ## Statements -/

section Statements

variable {n : Node} {c middle stop : Cursor} {front cs : List Char} {xs ys zs : List Node}
  {a b : Rule Name} {kind w : String} {r : Rule Name}

def excess (r : Rule Name) : Rule Name := Rule.opt (.node "ERROR" r)

theorem spells_of_excess (derived : grammar.Derives [] (.seq a (excess r)) c xs stop)
    (flat : a.isFlat = true) (sound : ∀ x ∈ xs, x.kind ≠ "ERROR") :
    ∃ cs, grammar.Spells a c cs xs stop := by
  cases derived with
  | @seq _ _ _ _ xs middle ys _ first last =>
    cases last with
    | altRight nothing =>
      cases nothing
      rw [List.append_nil]
      exact Syntax.Grammar.spells_of_derives first flat
    | altLeft error =>
      cases error with
      | @node _ _ _ _ inner _ _ _ _ =>
        obtain ⟨x, member, kind⟩ := Syntax.Grammar.exists_kind_enclose middle stop "ERROR" inner
        exact absurd kind (sound x (List.mem_append_right _ member))

structure StatementRow (n : Node) (w : String) (a : Rule Name) (t : Node) (middle : Cursor)
    (cs : List Char) (xs : List Node) (stop : Cursor) : Prop where
  children : n.children = t :: xs
  kind : t.kind = w
  proper : t.isExtra = false
  ends : t.stop.offset = middle.place.offset
  behind : Behind n w.toList middle
  spelled : grammar.Spells a middle cs xs stop
  chars : n.chars = w.toList ++ cs

theorem exists_statementRow (derived : grammar.Derives [] (.seq (.word w) b) c ys stop)
    (member : n ∈ c.enclose stop kind ys) (proper : n.isExtra = false)
    (inner : ∀ {middle xs}, grammar.Derives [] b middle xs stop → (∀ x ∈ xs, x ∈ n.children) →
      ∃ cs, grammar.Spells a middle cs xs stop) :
    ∃ t middle cs xs, StatementRow n w a t middle cs xs stop := by
  cases derived with
  | seq word others =>
    cases word with
    | @word _ _ _ rest fits =>
      have text := append_of_dropWord? fits
      have taken : (grammar.lead c).2.rest.take w.length = w.toList := by
        rw [← text, ← String.length_toList, List.take_left]
      have passed := Cursor.Passes.skip (grammar.lead c).2 w.length
      rw [taken] at passed
      rw [Syntax.Grammar.take, List.append_assoc, List.singleton_append] at member
      obtain ⟨start, tail, children, last, there, stops⟩ := Syntax.Grammar.of_enclose
        (fun x extra => (Syntax.Grammar.comment_of_lead extra).1) rfl member proper
      obtain ⟨cs, spelled⟩ := inner others (fun x inside => by rw [children]; simp [inside])
      have passes := passed.trans spelled.passes
      have finish : last.stop = stop.place := by
        rcases spelled.stop_eq with ⟨rfl, still⟩ | ⟨x, ends, same⟩
        · obtain rfl := Option.some.inj there
          exact still.symm
        · rw [List.getLast?_cons, Option.mem_def.1 ends] at there
          obtain rfl := Option.some.inj there
          exact same
      refine ⟨_, _, cs, _, children, rfl, rfl, rfl, ⟨?_, ?_⟩, spelled, ?_⟩
      · rw [tail]
        exact passed.text
      · rw [start]
        exact passed.offset
      · have length : n.stop.offset - n.start.offset = (w.toList ++ cs).length := by
          rw [stops, finish, start, passes.offset]
          exact Nat.add_sub_cancel_left _ _
        rw [Node.chars, length, tail]
        exact passes.text ▸ List.take_left

theorem StatementRow.spaced {t x : Node} (row : StatementRow n w a t middle cs xs stop)
    (spaced : IsSpacedOut n) (keyword : x.kind ∈ ["from", "import", "as"]) (member : x ∈ xs) :
    IsSpaced n x := by
  refine spaced x ?_ keyword
  rw [row.children]
  exact List.mem_cons_of_mem t member

theorem StatementRow.tokens {t : Node} (row : StatementRow n w a t middle cs xs stop)
    (proper : ∀ x ∈ xs, x.isExtra = false) : (n.children.filter (!·.isExtra)).drop 1 = xs := by
  have all : ∀ x ∈ n.children, (!x.isExtra) = true := by
    rw [row.children]
    exact List.forall_mem_cons.2 ⟨by simp [row.proper], fun x member => by simp [proper x member]⟩
  rw [List.filter_eq_self.2 all, row.children, List.drop_one, List.tail_cons]

theorem StatementRow.head? {t : Node} (row : StatementRow n w a t middle cs xs stop)
    (spaced : IsSpacedOut n) (keyword : w ∈ ["from", "import", "as"]) :
    middle.rest.head? = some ' ' := by
  have own : IsSpaced n t := by
    refine spaced t ?_ (row.kind ▸ keyword)
    rw [row.children]
    exact List.mem_cons_self
  exact own.head? row.behind row.ends

def modules : Rule Name := Rule.commasEnd (renamed path)

theorem isWritten_of_modules {t : Node}
    (row : StatementRow n "import" modules t middle cs xs stop)
    (other : n.kind ≠ "import_from_statement") (even : IsEven n.chars)
    (spaced : IsSpacedOut n) : (statementOf n).IsWritten n.chars := by
  have even : IsEven cs := (List.forall_mem_append.1 (row.chars ▸ even)).2
  obtain ⟨gap, items, body, listing⟩ := exists_listingRow readsNames_path row.spelled even
    row.behind (fun x member kind => row.spaced spaced (by simp [kind]) member)
  have head : ∃ d ∈ body.head?, Text.isBlank d = false := by
    obtain ⟨d, first, solid, -⟩ := listing.listing.head?
    exact ⟨d, first, solid⟩
  obtain ⟨after, rfl⟩ := listing.row.exists_gap (row.head? spaced (by simp)) head
  have chars : n.chars = "import ".toList ++ (after ++ body) := by
    rw [row.chars, row.spelled.passes.unique listing.row.passes]
    rfl
  have told : statementOf n = .modules items := by
    rw [statementOf, if_neg other, row.tokens listing.row.proper, listing.told]
  rw [told, chars]
  exact .modules (List.forall_mem_cons.1 listing.row.blank).2 listing.listing

def names : Rule Name := Rule.commasEnd (renamed nameRule)

def nameList : Rule Name :=
  Rule.choice [.sign "*", Rule.sequence [.sign "(", .inside names, .inside (.sign ")")], names]

structure NamesRow (c : Cursor) (gap : List Char) (items : List Item) (body : List Char)
    (xs : List Node) (stop : Cursor) : Prop where
  row : Row c gap body xs stop
  told : itemsOf (xs.filter (fun t => t.kind != "(" && t.kind != ")")) = items
  listing : Listing items body ∨ ∃ inner inner' cs, IsGap inner ∧ IsGap inner' ∧
    Listing items cs ∧ body = '(' :: (inner ++ cs ++ (inner' ++ [')']))

theorem isName_star : IsName "*" :=
  isName_of_solid (by decide) (List.forall_mem_singleton.2 (by decide))
    (List.forall_mem_singleton.2 (by decide)) (by decide)

theorem ListingRow.namesRow {gap body : List Char} {items : List Item}
    (row : ListingRow c gap items body xs stop) : NamesRow c gap items body xs stop where
  row := row.row
  told := by
    rw [List.filter_eq_self.2, row.told]
    intro x member
    have kind := row.kinds x member
    simp only [List.mem_cons, List.not_mem_nil, or_false, not_or] at kind
    simpa using kind
  listing := .inl row.listing

theorem exists_namesRow (spelled : grammar.Spells nameList c cs xs stop) (even : IsEven cs)
    (behind : Behind n front c) (spaced : ∀ x ∈ xs, x.kind = "as" → IsSpaced n x) :
    ∃ gap items body, NamesRow c gap items body xs stop := by
  cases spelled with
  | altLeft star =>
    obtain ⟨gap, x, rfl, kind, row⟩ := row_sign star even ⟨'*', rfl, by decide⟩
    have one : ItemRow c gap ⟨"*", none, "*"⟩ [x] stop := {
      row := row
      item := by simp [itemOf?, kind, row.spellingOf_eq]
      plain := .own isName_star
      kinds := List.forall_mem_singleton.2 (by simp [kind]) }
    have listing : ListingRow c gap [⟨"*", none, "*"⟩] "*".toList [x] stop :=
      ⟨row, one.itemsOf, .last one.plain, one.kind_not_mem⟩
    exact ⟨gap, _, _, listing.namesRow⟩
  | altRight others =>
    cases others with
    | altRight plain =>
      obtain ⟨gap, items, body, row⟩ :=
        exists_listingRow readsNames_nameRule plain even behind spaced
      exact ⟨gap, items, body, row.namesRow⟩
    | altLeft bracketed =>
      cases bracketed with
      | seq opening others =>
        obtain ⟨even, even'⟩ := List.forall_mem_append.1 even
        obtain ⟨spaced, spaced'⟩ := List.forall_mem_append.1 spaced
        obtain ⟨gap, x, rfl, kind, first⟩ := row_sign opening even ⟨'(', rfl, by decide⟩
        cases others with
        | seq inside closing =>
          obtain ⟨even', even''⟩ := List.forall_mem_append.1 even'
          obtain ⟨spaced', -⟩ := List.forall_mem_append.1 spaced'
          have behind := behind.append first.passes
          cases inside with
          | inside listed =>
            cases closing with
            | inside closing =>
              obtain ⟨gap', items, body, row⟩ := exists_listingRow readsNames_nameRule listed even'
                ⟨behind.tail, behind.offset⟩ spaced'
              obtain ⟨gap'', y, rfl, kind', last⟩ :=
                row_sign closing even'' ⟨')', rfl, by decide⟩
              have all (depth : Nat) :=
                (first.append (row.row.setDepth _ 0)).append (last.setDepth 0 depth)
              refine ⟨gap, items, '(' :: (gap' ++ body ++ (gap'' ++ [')'])), ?row, ?told,
                .inr ⟨gap', gap'', body, row.row.blank, last.blank, row.listing, rfl⟩⟩
              case row => simpa [List.append_assoc] using all _
              case told =>
                have none_ : [y].filter (fun t => t.kind != "(" && t.kind != ")") = [] := by
                  simp [kind']
                have told := row.namesRow.told
                rw [List.singleton_append, List.filter_cons_of_neg (by simp [kind]),
                  List.filter_append, none_, List.append_nil]
                exact told

theorem NamesRow.head? {gap body : List Char} {items : List Item}
    (row : NamesRow c gap items body xs stop) : ∃ d ∈ body.head?, Text.isBlank d = false := by
  rcases row.listing with listing | ⟨_, _, _, _, _, _, rfl⟩
  · obtain ⟨d, first, solid, -⟩ := listing.head?
    exact ⟨d, first, solid⟩
  · exact ⟨'(', rfl, by decide⟩

theorem isWritten_of_names {t : Node}
    (row : StatementRow n "from" (.seq source (.seq (.word "import") nameList)) t middle cs xs stop)
    (own : n.kind = "import_from_statement") (even : IsEven n.chars) (spaced : IsSpacedOut n) :
    (statementOf n).IsWritten n.chars := by
  have even : IsEven cs := (List.forall_mem_append.1 (row.chars ▸ even)).2
  have spelled := row.spelled
  cases spelled with
  | @seq _ _ _ _ ys next _ _ _ first others =>
    obtain ⟨evenSource, evenRest⟩ := List.forall_mem_append.1 even
    cases others with
    | @seq _ _ _ _ _ last _ zs _ word list =>
      obtain ⟨even', even''⟩ := List.forall_mem_append.1 evenRest
      obtain ⟨gap, s, one⟩ := readsNames_source first evenSource
      obtain ⟨gap', x, rfl, kind, keyword⟩ := row_word word even' ⟨'i', rfl, by decide⟩
      obtain ⟨before, space⟩ := one.keyword keyword row.behind
        (row.spaced spaced (by simp [kind]) (by simp))
      have behind := (row.behind.append one.row.passes).append keyword.passes
      obtain ⟨gap'', items, body, list⟩ := exists_namesRow list even'' behind
        (fun y member kind => row.spaced spaced (by simp [kind]) (by simp [member]))
      obtain ⟨after, rfl⟩ :=
        one.row.exists_gap (row.head? spaced (by simp)) one.shows.head?_solid
      obtain ⟨before, rfl⟩ := before
      obtain ⟨after', rfl⟩ := list.row.exists_gap space list.head?
      have all := (one.row.append keyword).append list.row
      have chars : n.chars = "from ".toList ++ (after ++ s.toList ++ before ++ " import ".toList ++
          (after' ++ body)) := by
        rw [List.append_assoc] at all
        rw [row.chars, row.spelled.passes.unique all.passes]
        have words : "from ".toList = "from".toList ++ [' '] ∧
            " import ".toList = ' ' :: ("import".toList ++ [' ']) := ⟨rfl, rfl⟩
        rw [words.1, words.2]
        simp only [List.append_assoc, List.cons_append, List.nil_append]
      have told : statementOf n = .names s items := by
        have free := one.kind_ne "import" (by decide)
        have source : spellingOf ys = s := by rw [one.row.spellingOf_eq, String.ofList_toList]
        have proper : ∀ y ∈ ys ++ ([x] ++ zs), y.isExtra = false := by
          rw [← List.append_assoc]
          exact all.proper
        rw [statementOf, if_pos own, row.tokens proper, List.takeWhile_append_of_pos free,
          List.dropWhile_append_of_pos free, List.singleton_append,
          List.takeWhile_cons_of_neg (by simp [kind]), List.dropWhile_cons_of_neg (by simp [kind]),
          List.append_nil, source, List.drop_one, List.tail_cons, list.told]
      have blank := (List.forall_mem_cons.1 one.row.blank).2
      have blank' := (List.forall_mem_append.1 keyword.blank).1
      have blank'' := (List.forall_mem_cons.1 list.row.blank).2
      rw [told, chars]
      rcases list.listing with listing | ⟨inner, inner', cs, blanks, blanks', listing, rfl⟩
      · exact .names one.shows blank blank' blank'' listing
      · have written := ImportStatement.IsWritten.inParens one.shows blank blank' blank'' blanks
          blanks' listing
        simpa only [List.append_assoc, List.cons_append, List.nil_append] using written

end Statements

/-! ## Statements of documents -/

section Documents

variable {text : String} {root n : Node} {kind : String} {inner : Rule Name}

def isKnown : Name → Bool
  | .line | .simple => true
  | _ => false

theorem rules_simple : ∃ r others, Grammar.Python.rules .simple =
    .alt (.alt (.node "import_statement" (.seq (.word "import") (.seq modules (excess r))))
      (.node "import_from_statement" (.seq (.word "from")
        (.seq source (.seq (.word "import") (.seq nameList (excess r))))))) others ∧
    others.omits "import_statement" isKnown = true ∧
    others.omits "import_from_statement" isKnown = true :=
  ⟨_, _, rfl, by decide, by decide⟩

theorem derives_of_statement (read : Grammar.Python.read? text.toList = some root)
    (member : n ∈ root.children) (same : n.kind = kind) (other : kind ≠ "comment")
    (line : (Grammar.Python.rules .line).omits kind isKnown = true)
    (simple : Rule.Lists kind inner (isKnown · = true) (Grammar.Python.rules .simple)) :
    n.isExtra = false ∧ ∃ c ys stop, grammar.Derives [] inner c ys stop ∧
      n ∈ c.enclose stop kind ys := by
  have comments : ∀ depth cs n kind, grammar.between depth cs = some (n, some kind) →
      kind = "comment" := fun _ _ _ _ found => (comment_of_between found).1
  have rules : ∀ name, isKnown name = true →
      Rule.Lists kind inner (isKnown · = true) (grammar.rule name) := by
    intro name known
    cases name with
    | line => exact Rule.lists_of_omits line
    | simple => exact simple
    | _ => cases known
  simp only [Grammar.Python.read?, Syntax.Grammar.read?] at read
  split at read
  · cases read
  · next nodes stop found =>
    split at read
    · cases read
      have derived := Syntax.Grammar.derives_of_run found
      rcases List.mem_append.1 member with node | extra
      · have proper : n.isExtra = false := by
          cases extra : n.isExtra with
          | false => rfl
          | true =>
            have comment := Syntax.Grammar.kind_of_extra comments derived (List.forall_mem_nil _)
              n node extra
            exact absurd (same ▸ comment) other
        refine ⟨proper, ?_⟩
        exact Syntax.Grammar.derives_of_listed rules derived ⟨⟨trivial, rfl⟩, trivial⟩ n node
          proper same
      · exact absurd (same ▸ Syntax.Grammar.kind_of_lead comments _ n extra) other
    · cases read

/-- In a document that is read, an import statement without errors is written as it tells, if its
blanks are spaces and tabs and spaces stand beside its keywords. -/
theorem isWritten_of_read? (read : Grammar.Python.read? text.toList = some root)
    (member : n ∈ root.children)
    (own : n.kind = "import_statement" ∨ n.kind = "import_from_statement")
    (sound : ∀ x ∈ n.children, x.kind ≠ "ERROR") (even : IsEven n.chars)
    (spaced : IsSpacedOut n) : (statementOf n).IsWritten n.chars := by
  obtain ⟨r, others, rule, omits, omits'⟩ := rules_simple
  rcases own with own | own
  · have simple : Rule.Lists "import_statement" (.seq (.word "import") (.seq modules (excess r)))
        (isKnown · = true) (Grammar.Python.rules .simple) := by
      rw [rule]
      exact ⟨⟨fun _ => rfl, fun same => absurd same (by decide)⟩, Rule.lists_of_omits omits⟩
    obtain ⟨proper, c, ys, stop, derived, enclosed⟩ :=
      derives_of_statement read member own (by decide) (by decide) simple
    obtain ⟨t, middle, cs, xs, row⟩ := exists_statementRow derived enclosed proper
      (fun derived inside =>
        spells_of_excess derived rfl (fun x member => sound x (inside x member)))
    exact isWritten_of_modules row (by rw [own]; decide) even spaced
  · have simple : Rule.Lists "import_from_statement" (.seq (.word "from")
        (.seq source (.seq (.word "import") (.seq nameList (excess r)))))
        (isKnown · = true) (Grammar.Python.rules .simple) := by
      rw [rule]
      exact ⟨⟨fun same => absurd same (by decide), fun _ => rfl⟩, Rule.lists_of_omits omits'⟩
    obtain ⟨proper, c, ys, stop, derived, enclosed⟩ :=
      derives_of_statement read member own (by decide) (by decide) simple
    obtain ⟨t, middle, cs, xs, row⟩ := exists_statementRow derived enclosed proper
      (a := .seq source (.seq (.word "import") nameList)) (fun derived inside => by
        cases derived with
        | seq first others =>
          obtain ⟨cs, first⟩ := Syntax.Grammar.spells_of_derives first rfl
          cases others with
          | seq word list =>
            obtain ⟨cs', word⟩ := Syntax.Grammar.spells_of_derives word rfl
            obtain ⟨cs'', list⟩ := spells_of_excess list rfl
              (fun x member => sound x (inside x (by simp [member])))
            exact ⟨_, .seq first (.seq word list)⟩)
    exact isWritten_of_names row own even spaced

end Documents

end CodeOutline.Analysis.Python
