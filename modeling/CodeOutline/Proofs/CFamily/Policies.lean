import CodeOutline.Proofs.CFamily.Declarations
import CodeOutline.Proofs.Name.Splitting
import CodeOutline.Proofs.Text.Pieces
import CodeOutline.Proofs.Token.Distinct

/-!
The place of the namespace in shown names, for the outline of a list of symbols. A member finds
its type, and a type its equals, by the shown name alone. With names and namespaces that every
form keeps apart, the outlines differ in the shown names only.
-/

set_option autoImplicit false

namespace CodeOutline.Analysis.CFamily

/-! Names that every form keeps apart -/

/-- A name that no form takes for one with a namespace. -/
structure IsPlain (name : String) : Prop where
  filled : name ≠ ""
  trimmed : Text.trim name = name
  noDot : '.' ∉ name.toList
  noColon : ':' ∉ name.toList

instance (name : String) : Decidable (IsPlain name) :=
  decidable_of_iff
    (name ≠ "" ∧ Text.trim name = name ∧ '.' ∉ name.toList ∧ ':' ∉ name.toList)
    ⟨fun ⟨filled, trimmed, noDot, noColon⟩ => ⟨filled, trimmed, noDot, noColon⟩,
      fun ⟨filled, trimmed, noDot, noColon⟩ => ⟨filled, trimmed, noDot, noColon⟩⟩

structure IsPart (cs : List Char) : Prop where
  filled : cs ≠ []
  noDot : '.' ∉ cs
  noColon : ':' ∉ cs

instance (cs : List Char) : Decidable (IsPart cs) :=
  decidable_of_iff (cs ≠ [] ∧ '.' ∉ cs ∧ ':' ∉ cs)
    ⟨fun ⟨filled, noDot, noColon⟩ => ⟨filled, noDot, noColon⟩,
      fun ⟨filled, noDot, noColon⟩ => ⟨filled, noDot, noColon⟩⟩

/-- Parts with a dot or a double colon between two of them. -/
inductive IsSpaceName : List Char → Prop
  | last {part : List Char} : IsPart part → IsSpaceName part
  | dot {part rest : List Char} :
    IsPart part → IsSpaceName rest → IsSpaceName (part ++ '.' :: rest)
  | colons {part rest : List Char} :
    IsPart part → IsSpaceName rest → IsSpaceName (part ++ ':' :: ':' :: rest)

/-- The names in a symbol are kept apart. -/
structure IsProper (s : Symbol) : Prop where
  name : (entityKind? s.kind).isSome → IsPlain s.name
  space : s.kind = .space → IsSpaceName s.name.toList
  container : ∀ owner, s.container = some owner → IsPlain owner

/-- A namespace in effect: it is not empty, and no colon is left in it. -/
def IsSpace (space : Option String) : Prop :=
  ∀ ns, space = some ns → ns ≠ "" ∧ ':' ∉ ns.toList

private theorem splitPath_append {xs ys : List Char} (noColon : ':' ∉ xs) {piece : List Char}
    {rest : List (List Char)} (pieces : dotted.splitPath ys = piece :: rest) :
    dotted.splitPath (xs ++ ys) = (xs ++ piece) :: rest := by
  induction xs with
  | nil => exact pieces
  | cons c xs ih =>
    rw [List.mem_cons, not_or] at noColon
    rw [List.cons_append, dotted.splitPath]
    · rw [ih noColon.2]
      rfl
    · intro ds same
      exact absurd same.symm noColon.1

private theorem splitPath_part {part : List Char} (proper : IsPart part) :
    dotted.splitPath part = [part] := by
  have alone : dotted.splitPath [] = [[]] := rfl
  simpa using splitPath_append proper.noColon alone

private theorem IsSpaceName.pieces {cs : List Char} (named : IsSpaceName cs) :
    ∃ piece rest, dotted.splitPath cs = piece :: rest ∧ piece ≠ [] ∧
      ∀ p ∈ piece :: rest, ':' ∉ p := by
  induction named with
  | @last part proper =>
    refine ⟨part, [], splitPath_part proper, proper.filled, ?_⟩
    exact List.forall_mem_singleton.2 proper.noColon
  | @dot part rest proper _ ih =>
    obtain ⟨piece, more, pieces, -, clear⟩ := ih
    rw [List.forall_mem_cons] at clear
    have behind : dotted.splitPath (['.'] ++ rest) = (['.'] ++ piece) :: more :=
      splitPath_append (by decide) pieces
    refine ⟨_, more, splitPath_append proper.noColon behind, by simp, ?_⟩
    refine List.forall_mem_cons.2 ⟨?_, clear.2⟩
    simpa using ⟨proper.noColon, clear.1⟩
  | @colons part rest proper _ ih =>
    obtain ⟨piece, more, pieces, -, clear⟩ := ih
    have cut : dotted.splitPath (':' :: ':' :: rest) = [] :: dotted.splitPath rest := rfl
    refine ⟨_, _, splitPath_append proper.noColon cut, by simpa using proper.filled, ?_⟩
    rw [List.append_nil, pieces]
    exact List.forall_mem_cons.2 ⟨proper.noColon, clear⟩

theorem isSpace_dotted {name : String} (named : IsSpaceName name.toList) :
    dotted name ≠ "" ∧ ':' ∉ (dotted name).toList := by
  obtain ⟨piece, rest, pieces, filled, clear⟩ := named.pieces
  have chars : (dotted name).toList = ['.'].intercalate (piece :: rest) := by
    rw [dotted, String.toList_intercalate, pieces, List.map_map]
    simp [Function.comp_def]
  constructor
  · intro empty
    rw [empty] at chars
    cases rest with
    | nil => exact filled (by simpa using chars.symm)
    | cons next rest => simp [List.intercalate_cons_cons] at chars
  · rw [chars]
    intro colon
    rcases Text.mem_intercalate colon with dot | ⟨p, member, inside⟩
    · exact absurd dot (by decide)
    · exact clear p member inside

/-! Shown names -/

theorem separator_toList : separator.toList = ['.'] := by decide

section Shown

variable {own : String} {space : Option String} (plain : IsPlain own) (proper : IsSpace space)

include plain

theorem IsPlain.split_self : Name.split own separator = (own, none) :=
  Name.split_of_plain separator_toList plain.noDot plain.noColon

include proper

theorem split_qualify :
    Name.split (Name.qualify own space separator .full) separator = (own, space) := by
  refine Name.split_qualify separator_toList plain.noDot (by decide) plain.noColon ?proper nofun
  case proper =>
    intro ns member
    obtain ⟨filled, noColon⟩ := proper ns member
    exact ⟨filled, .of_not_mem noColon⟩

theorem simple_qualify (position : NamespacePosition) :
    Name.simple (Name.qualify own space separator position) separator = own := by
  cases position with
  | full => rw [Name.simple, split_qualify plain proper]
  | none =>
    have shown : Name.qualify own space separator .none = own := by cases space <;> rfl
    rw [shown, Name.simple, plain.split_self]
  | suffix =>
    cases space with
    | none => exact congrArg Prod.fst plain.split_self
    | some ns =>
      obtain ⟨filled, -⟩ := proper ns rfl
      have chars : (Name.qualify own (some ns) separator .suffix).toList =
          own.toList ++ ':' :: ' ' :: ns.toList := by
        simp [Name.qualify, filled]
      rw [Name.simple, Name.split_colon chars plain.noColon (by simp)]
      exact plain.trimmed

theorem qualify_suffix_inj {own' : String} {space' : Option String} (plain' : IsPlain own')
    (proper' : IsSpace space') :
    Name.qualify own space separator .suffix = Name.qualify own' space' separator .suffix ↔
      Name.qualify own space separator .full = Name.qualify own' space' separator .full := by
  have spell (own : String) (space : Option String) (proper : IsSpace space) :
      (Name.qualify own space separator .suffix).toList =
        own.toList ++ (space.toList.flatMap (fun ns => ':' :: ' ' :: ns.toList)) := by
    cases space with
    | none => simp [Name.qualify]
    | some ns => simp [Name.qualify, (proper ns rfl).1]
  constructor
  · intro same
    have names : own = own' := by
      rw [← simple_qualify plain proper .suffix, same, simple_qualify plain' proper' .suffix]
    subst names
    have chars := congrArg String.toList same
    rw [spell own space proper, spell own space' proper', List.append_cancel_left_eq] at chars
    have spaces : space = space' := by
      cases space <;> cases space' <;> simp_all [String.toList_inj]
    rw [spaces]
  · intro same
    have parts := congrArg (Name.split · separator) same
    simp only [split_qualify plain proper, split_qualify plain' proper', Prod.mk.injEq] at parts
    rw [parts.1, parts.2]

theorem answersTo_qualify (position : NamespacePosition) {owner : String} (asked : IsPlain owner)
    {e : EntityToken} (shown : e.name = Name.qualify own space separator position) :
    TokenTree.answersTo owner separator e = (own == owner) := by
  have simple : Name.simple e.name separator = own := by
    rw [shown, simple_qualify plain proper]
  have whole : e.name = owner → own = owner := by
    intro same
    rw [← simple, same, Name.simple, asked.split_self]
  rw [TokenTree.answersTo, simple, Bool.or_eq_right_iff_imp]
  simpa using whole

end Shown

/-! The same outline under another policy -/

/-- A name in full form as another policy shows it. -/
def respell (position : NamespacePosition) (name : String) : String :=
  let (own, space) := Name.split name separator
  Name.qualify own space separator position

/-- The entity under its other name, with all that it holds. -/
def respellEntity (position : NamespacePosition) (e : EntityToken) : EntityToken :=
  { e with name := respell position e.name }

theorem respell_qualify {own : String} {space : Option String} (plain : IsPlain own)
    (proper : IsSpace space) (position : NamespacePosition) :
    respell position (Name.qualify own space separator .full) =
      Name.qualify own space separator position := by
  rw [respell, split_qualify plain proper]

/-- Every entity shows in full form the name of a symbol that became its kind. -/
structure Shows (symbols : List Symbol) (t : TokenTree) : Prop where
  space : IsSpace t.space
  entities : ∀ kind, ∀ e ∈ t.entitiesOf kind, ∃ s ∈ symbols, entityKind? s.kind = some kind ∧
    ∃ space, IsSpace space ∧ e.name = Name.qualify s.name space separator .full

section Step

variable {before : List Symbol} {t : TokenTree} {s : Symbol} {lines : List String}
  {position : NamespacePosition} (shows : Shows before t)

include shows

private theorem Shows.keep {t' : TokenTree} (space : t'.space = t.space)
    (names : ∀ kind, (t'.entitiesOf kind).map (·.name) = (t.entitiesOf kind).map (·.name)) :
    Shows (before ++ [s]) t' where
  space := space ▸ shows.space
  entities kind e member := by
    have named : e.name ∈ (t.entitiesOf kind).map (·.name) :=
      names kind ▸ List.mem_map_of_mem member
    obtain ⟨e', member', same⟩ := List.mem_map.1 named
    obtain ⟨s', there, fits, space', open', shown⟩ := shows.entities kind e' member'
    exact ⟨s', List.mem_append_left _ there, fits, space', open', same ▸ shown⟩

theorem Shows.step (proper : IsProper s) : Shows (before ++ [s]) (addSymbol lines .full t s) := by
  rcases does lines s with
    ⟨kind, step⟩ | ⟨kind, entity, step⟩ | ⟨members, brings, step⟩ | ⟨keeps, step⟩
  · obtain ⟨filled, noColon⟩ := isSpace_dotted (proper.space kind)
    have opened : t.setSpace (dotted s.name) = { t with space := some (dotted s.name) } := by
      simp [TokenTree.setSpace, filled]
    rw [step, opened]
    constructor
    · rintro ns ⟨⟩
      exact ⟨filled, noColon⟩
    · intro k e member
      have old : e ∈ t.entitiesOf k := by cases k <;> exact member
      obtain ⟨s', there, shown⟩ := shows.entities k e old
      exact ⟨s', List.mem_append_left _ there, shown⟩
  · rw [step]
    constructor
    · have kept : (t.addEntity kind (entityOf t .full (lineOf lines s) s)).space = t.space := by
        cases kind <;> rfl
      exact kept ▸ shows.space
    · intro k e member
      rcases t.mem_addEntity member with old | ⟨rfl, rfl⟩
      · obtain ⟨s', there, shown⟩ := shows.entities k e old
        exact ⟨s', List.mem_append_left _ there, shown⟩
      · exact ⟨s, List.mem_append_right _ (List.mem_singleton_self s), entity, t.space,
          shows.space, rfl⟩
  · rw [step]
    unfold inContainer
    split
    · next owner _ =>
      have named (e : EntityToken) : (e.addMembers members).name = e.name :=
        (addMembers_rename brings e e.name).2
      have space : (t.updateOpen owner separator (·.addMembers members)).space = t.space := by
        obtain ⟨classes, interfaces, changed⟩ :=
          t.updateOpen_frame owner separator (·.addMembers members)
        rw [changed]
      exact shows.keep space (t.names_updateOpen owner separator named)
    · exact shows.keep rfl (fun _ => rfl)
  · rw [step]
    exact shows.keep (keeps.space t) (fun k => by rw [keeps.entities])

private theorem answersTo_respelled (all : ∀ s ∈ before, IsProper s) {owner : String}
    (asked : IsPlain owner) (kind : EntityKind) : ∀ e ∈ t.entitiesOf kind,
      TokenTree.answersTo owner separator (respellEntity position e) =
        TokenTree.answersTo owner separator e := by
  intro e member
  obtain ⟨s', there, fits, space', open', shown⟩ := shows.entities kind e member
  have plain : IsPlain s'.name := (all s' there).name (by rw [fits]; rfl)
  have other : (respellEntity position e).name =
      Name.qualify s'.name space' separator position := by
    rw [respellEntity, shown, respell_qualify plain open']
  rw [answersTo_qualify plain open' .full asked shown,
    answersTo_qualify plain open' position asked other]

private theorem addSymbol_respelled (all : ∀ s ∈ before, IsProper s) (proper : IsProper s)
    (apart : ∀ kind, entityKind? s.kind = some kind → ∀ e ∈ t.entitiesOf kind,
      respell position e.name = Name.qualify s.name t.space separator position ↔
        e.name = Name.qualify s.name t.space separator .full) :
    addSymbol lines position (t.mapEntities (respellEntity position)) s =
      (addSymbol lines .full t s).mapEntities (respellEntity position) := by
  rcases does lines s with
    ⟨-, step⟩ | ⟨kind, entity, step⟩ | ⟨members, brings, step⟩ | ⟨keeps, step⟩
  · rw [step, step, TokenTree.mapEntities_setSpace]
  · have plain : IsPlain s.name := proper.name (by rw [entity]; rfl)
    have named := respell_qualify plain shows.space position
    have same : entityOf (t.mapEntities (respellEntity position)) position (lineOf lines s) s =
        respellEntity position (entityOf t .full (lineOf lines s) s) := by
      simp only [entityOf, TokenTree.mapEntities, respellEntity, named]
    rw [step, step, same]
    apply TokenTree.mapEntities_addEntity
    intro e member
    simpa only [respellEntity, entityOf, named] using apart kind entity e member
  · rw [step, step, inContainer, inContainer]
    cases owned : s.container with
    | none => rfl
    | some owner =>
      apply TokenTree.mapEntities_updateOpen
      · exact answersTo_respelled shows all (proper.container owner owned)
      · intro e
        have renamed := addMembers_rename brings e (respell position e.name)
        rw [respellEntity, renamed.1, respellEntity, renamed.2]
  · rw [step, step .full, keeps.mapped]

end Step

section Run

variable {symbols : List Symbol} (lines : List String)

private theorem foldl_shows (proper : ∀ s ∈ symbols, IsProper s) :
    Shows symbols (symbols.foldl (addSymbol lines .full) .empty) := by
  induction symbols using List.reverseRecOn with
  | nil =>
    refine ⟨nofun, fun kind e member => ?_⟩
    cases kind <;> cases member
  | append_singleton before s ih =>
    rw [List.forall_mem_append, List.forall_mem_singleton] at proper
    rw [List.foldl_append]
    exact (ih proper.1).step proper.2

private theorem foldl_respelled {position : NamespacePosition}
    (proper : ∀ s ∈ symbols, IsProper s)
    (apart : ∀ before s, before ++ [s] <+: symbols → ∀ kind, entityKind? s.kind = some kind →
      ∀ t, Shows before t → ∀ e ∈ t.entitiesOf kind,
        respell position e.name = Name.qualify s.name t.space separator position ↔
          e.name = Name.qualify s.name t.space separator .full) :
    symbols.foldl (addSymbol lines position) .empty =
      (symbols.foldl (addSymbol lines .full) .empty).mapEntities (respellEntity position) := by
  induction symbols using List.reverseRecOn with
  | nil => rfl
  | append_singleton before s ih =>
    rw [List.forall_mem_append, List.forall_mem_singleton] at proper
    have earlier := ih proper.1 (fun front s' first =>
      apart front s' (first.trans (List.prefix_append before [s])))
    have shows := foldl_shows lines proper.1
    rw [List.foldl_append, List.foldl_append, earlier]
    exact addSymbol_respelled shows proper.1 proper.2
      (fun kind entity => apart before s (List.prefix_refl _) kind entity _ shows)

/-- The kind of entity that a symbol becomes, with its name. -/
def namesOf (symbols : List Symbol) (kind : EntityKind) : List String :=
  (symbols.filter (entityKind? ·.kind = some kind)).map (·.name)

private theorem ne_of_nodup {kind : EntityKind} (distinct : (namesOf symbols kind).Nodup)
    {before : List Symbol} {s s' : Symbol} (first : before ++ [s] <+: symbols)
    (entity : entityKind? s.kind = some kind) (there : s' ∈ before)
    (entity' : entityKind? s'.kind = some kind) : s'.name ≠ s.name := by
  have among : (namesOf (before ++ [s]) kind).Nodup :=
    distinct.sublist ((first.sublist.filter _).map _)
  have listed : namesOf (before ++ [s]) kind = namesOf before kind ++ [s.name] := by
    simp [namesOf, List.filter_append, entity]
  rw [listed, List.nodup_append] at among
  have known : s'.name ∈ namesOf before kind :=
    List.mem_map_of_mem (List.mem_filter.2 ⟨there, decide_eq_true entity'⟩)
  exact among.2.2 s'.name known s.name (List.mem_singleton_self _)

/-- The outlines under the three policies are the same but for the names of the entities: always
with a suffix, and without namespaces when no two entities of a kind have one name. -/
theorem tree_policies (text : String) (settings : LanguageSettings)
    (proper : ∀ s ∈ symbols, IsProper s) :
    let shown (position : NamespacePosition) := tree text symbols { settings with position }
    shown .suffix = (shown .full).mapEntities (respellEntity .suffix) ∧
      ((∀ kind, (namesOf symbols kind).Nodup) →
        shown .none = (shown .full).mapEntities (respellEntity .none)) := by
  intro shown
  -- Where a symbol comes, the entities before it and itself have names that come apart.
  have named {before : List Symbol} {s : Symbol} (first : before ++ [s] <+: symbols)
      {kind : EntityKind} (entity : entityKind? s.kind = some kind) {t : TokenTree}
      (shows : Shows before t) {e : EntityToken} (member : e ∈ t.entitiesOf kind) :
      IsPlain s.name ∧ ∃ s' ∈ before, entityKind? s'.kind = some kind ∧ IsPlain s'.name ∧
        ∃ space, IsSpace space ∧ e.name = Name.qualify s'.name space separator .full := by
    have plain {s : Symbol} (there : s ∈ symbols) (entity : entityKind? s.kind = some kind) :
        IsPlain s.name := (proper s there).name (by rw [entity]; rfl)
    obtain ⟨s', there, entity', space, open', shown⟩ := shows.entities kind e member
    refine ⟨plain (first.subset (by simp)) entity, s', there, entity', ?_, space, open', shown⟩
    exact plain (first.subset (List.mem_append_left _ there)) entity'
  constructor
  · apply foldl_respelled (Text.lines text) proper
    intro before s first kind entity t shows e member
    obtain ⟨plain, s', -, -, plain', space, open', shown⟩ := named first entity shows member
    rw [shown, respell_qualify plain' open']
    exact qualify_suffix_inj plain' open' plain shows.space
  · intro distinct
    apply foldl_respelled (Text.lines text) proper
    intro before s first kind entity t shows e member
    obtain ⟨plain, s', there, entity', plain', space, open', shown⟩ :=
      named first entity shows member
    have other : s'.name ≠ s.name := ne_of_nodup (distinct kind) first entity there entity'
    -- A form that equals another has the same simple name in it.
    have apart (position : NamespacePosition) :
        Name.qualify s'.name space separator position ≠
          Name.qualify s.name t.space separator position := by
      intro same
      apply other
      rw [← simple_qualify plain' open' position, same, simple_qualify plain shows.space position]
    rw [shown, respell_qualify plain' open']
    exact iff_of_false (apart .none) (apart .full)

end Run

/-- A class with a field in one namespace, and another class and an interface in another. -/
def twoSpaces : List Symbol := [
  { name := "Acme::Shop", kind := .space, span := ⟨⟨0, 10⟩, ⟨2, 1⟩⟩ },
  { name := "Cart", kind := .class, span := ⟨⟨1, 6⟩, ⟨1, 25⟩⟩ },
  { name := "size", kind := .field, container := some "Cart", span := ⟨⟨1, 17⟩, ⟨1, 22⟩⟩ },
  { name := "Bank.Desk", kind := .space, span := ⟨⟨3, 10⟩, ⟨6, 1⟩⟩ },
  { name := "Teller", kind := .class, span := ⟨⟨4, 6⟩, ⟨4, 15⟩⟩ },
  { name := "Open", kind := .interface, span := ⟨⟨5, 10⟩, ⟨5, 17⟩⟩ }]

theorem tree_policies_twoSpaces :
    (∀ s ∈ twoSpaces, IsProper s) ∧ (∀ kind, (namesOf twoSpaces kind).Nodup) ∧
      let shown (position : NamespacePosition) := tree "" twoSpaces { position }
      shown .suffix = (shown .full).mapEntities (respellEntity .suffix) ∧
        shown .none = (shown .full).mapEntities (respellEntity .none) ∧
        ((shown .suffix).classes.map (·.name)) = ["Cart: Acme.Shop", "Teller: Bank.Desk"] := by
  have first : IsSpaceName "Acme::Shop".toList := by
    have parts : "Acme::Shop".toList = "Acme".toList ++ ':' :: ':' :: "Shop".toList := by decide
    rw [parts]
    exact .colons (by decide) (.last (by decide))
  have second : IsSpaceName "Bank.Desk".toList := by
    have parts : "Bank.Desk".toList = "Bank".toList ++ '.' :: "Desk".toList := by decide
    rw [parts]
    exact .dot (by decide) (.last (by decide))
  have proper : ∀ s ∈ twoSpaces, IsProper s := by
    simp only [twoSpaces, List.forall_mem_cons, List.not_mem_nil, false_imp_iff, implies_true,
      and_true]
    refine ⟨⟨nofun, fun _ => first, nofun⟩, ⟨fun _ => by decide, nofun, nofun⟩,
      ⟨nofun, nofun, ?_⟩, ⟨nofun, fun _ => second, nofun⟩, ⟨fun _ => by decide, nofun, nofun⟩,
      ⟨fun _ => by decide, nofun, nofun⟩⟩
    rintro owner ⟨⟩
    decide
  have distinct : ∀ kind, (namesOf twoSpaces kind).Nodup := by
    intro kind
    cases kind <;> decide
  obtain ⟨suffix, none⟩ := tree_policies "" {} proper
  exact ⟨proper, distinct, suffix, none distinct, by decide +kernel⟩

end CodeOutline.Analysis.CFamily
