import CodeOutline.Proofs.CFamily.Policies
import CodeOutline.Proofs.CFamily.Spaces

/-!
The entities that members go to, against the types in whose bodies they stand. A member looks
for its type by name, among the types before it; a type of the same name takes it when it is
looked at first.
-/

set_option autoImplicit false

namespace CodeOutline.Analysis.CFamily

open Symbols (Placed placed? outer_before)

def isType (s : Symbol) : Bool := (entityKind? s.kind).isSome

/-- The type in whose body a symbol stands. -/
def homeOf? (p : Placed) : Option Symbol := p.outer.find? isType

/-- Members are listed in an entity by their names. -/
def AreListed (members e : EntityToken) : Prop :=
  (∀ v ∈ members.properties, v.name ∈ e.properties.map (·.name)) ∧
    ∀ m ∈ members.methods, m.name ∈ e.methods.map (·.name)

instance (members e : EntityToken) : Decidable (AreListed members e) := by
  delta AreListed
  infer_instance

/-- Every member in the body of a type is listed in the entity of that type. -/
def KeepsMembers (lines : List String) (ps : List Placed) (t : TokenTree) : Prop :=
  ∀ p ∈ ps, ∀ home ∈ homeOf? p, ∀ members ∈ members? lines p.symbol,
    ∃ x ∈ t.entities, entityKind? home.kind = some x.1 ∧ x.2.span = some home.span ∧
      AreListed members x.2

instance (lines : List String) (ps : List Placed) (t : TokenTree) :
    Decidable (KeepsMembers lines ps t) := by
  delta KeepsMembers
  infer_instance

/-- Two types of one name in two namespaces. -/
def twinTypes : Document :=
  { language := "cpp", file := "a.cpp"
    text := "namespace a { class Foo { int x; }; }\nnamespace b { class Foo { int y; }; }" }

theorem not_keepsMembers : ∃ ps ∈ placed? twinTypes.language twinTypes.text,
    ∃ t ∈ (Analyzer.cfamily.read twinTypes {}).toOption,
      ¬ KeepsMembers (Text.lines twinTypes.text) ps t := by
  decide +kernel

/-! Where members go -/

section

variable {position : NamespacePosition} {symbols : List Symbol}

theorem mem_declared {d : Declared} : d ∈ declared position symbols ↔
    ∃ before after, symbols = before ++ d.symbol :: after ∧
      entityKind? d.symbol.kind = some d.kind ∧
      d.name = Name.qualify d.symbol.name (begun before) separator position := by
  rw [declared, List.mem_filterMap]
  constructor
  · rintro ⟨⟨before, s⟩, member, declares⟩
    obtain ⟨front, back, parts, earlier⟩ := mem_withBefore.1 member
    obtain ⟨kind, entity, rfl⟩ := Option.map_eq_some_iff.1 declares
    obtain rfl : before = front := earlier
    exact ⟨before, back, parts, entity, rfl⟩
  · rintro ⟨before, after, parts, entity, shown⟩
    refine ⟨(before, d.symbol), mem_withBefore.2 ⟨before, after, parts, rfl⟩, ?_⟩
    refine Option.map_eq_some_iff.2 ⟨d.kind, entity, ?_⟩
    rw [← shown]

theorem mem_openTo {d : Declared} :
    d ∈ openTo (declared position symbols) ↔ d ∈ declared position symbols := by
  have sorted (member : d ∈ declared position symbols) : d.kind = .class ∨ d.kind = .interface := by
    obtain ⟨-, -, -, entity, -⟩ := mem_declared.1 member
    unfold entityKind? at entity
    split at entity <;> simp_all
  simp only [openTo, ofKind, List.mem_append, List.mem_filter, decide_eq_true_eq, ← and_or_left]
  exact and_iff_left_of_imp sorted

theorem mem_of_owner? {s : Symbol} {d : Declared}
    (goes : owner? (declared position symbols) s = some d) : d ∈ declared position symbols := by
  obtain ⟨owner, -, found⟩ := Option.bind_eq_some_iff.1 goes
  exact mem_openTo.1 (List.mem_of_find?_eq_some found)

theorem first_of_owner? {ds : List Declared} {s : Symbol} {d : Declared}
    (goes : owner? ds s = some d) : d ∈ firsts (·.name) (ofKind d.kind ds) := by
  obtain ⟨owner, -, found⟩ := Option.bind_eq_some_iff.1 goes
  have among {kind : EntityKind} (found : (ofKind kind ds).find? (·.answersTo owner) = some d) :
      d ∈ firsts (·.name) (ofKind d.kind ds) := by
    have typed : d.kind = kind := by
      simpa using (List.mem_filter.1 (List.mem_of_find?_eq_some found)).2
    have firstOfName := find?_firsts (·.name)
      (fun n => TokenTree.answersTo owner separator { name := n }) (ofKind kind ds)
    rw [typed]
    exact List.mem_of_find?_eq_some (firstOfName.trans found)
  rw [openTo, List.find?_append, Option.or_eq_some_iff] at found
  rcases found with here | ⟨-, here⟩
  · exact among here
  · exact among here

theorem listed_of_owner? {text : String} {settings : LanguageSettings} {before after : List Symbol}
    {s : Symbol} {d : Declared} (goes : owner? (declared settings.position before) s = some d)
    {members : EntityToken} (brings : members? (Text.lines text) s = some members) :
    ∃ e ∈ (tree text (before ++ s :: after) settings).entitiesOf d.kind,
      e.name = d.name ∧ e.span = some d.symbol.span ∧ AreListed members e := by
  have joins : s ∈ joined settings.position (before ++ s :: after) d.kind d.name := by
    refine List.mem_map.2 ⟨(before, s), List.mem_filter.2 ⟨?_, ?_⟩, rfl⟩
    · exact mem_withBefore.2 ⟨before, after, rfl, rfl⟩
    · simp [goesTo?, goes]
  have added : members ∈ (joined settings.position (before ++ s :: after) d.kind d.name).filterMap
      (members? (Text.lines text)) := List.mem_filterMap.2 ⟨s, joins, brings⟩
  -- What comes later leaves the first declaration of the name where it is.
  have first : d ∈ firsts (·.name)
      (ofKind d.kind (declared settings.position (before ++ s :: after))) := by
    rw [declared, withBefore_append, List.filterMap_append, ofKind, List.filter_append,
      firsts_append]
    exact List.mem_append_left _ (first_of_owner? goes)
  rw [entitiesOf_tree]
  refine ⟨_, List.mem_map_of_mem first, rfl, rfl, fun v member => ?_, fun m member => ?_⟩
  · refine mem_map_withFirsts.2 (.inr (List.mem_map.2 ⟨v, ?_, rfl⟩))
    exact List.mem_flatMap.2 ⟨members, added, member⟩
  · refine mem_map_withFirsts.2 (.inr (List.mem_map.2 ⟨m, ?_, rfl⟩))
    exact List.mem_flatMap.2 ⟨members, added, member⟩

theorem isSpace_begun (proper : ∀ s ∈ symbols, IsProper s) : IsSpace (begun symbols) := by
  intro ns opened
  obtain ⟨s, member, opens⟩ := List.mem_filterMap.1 (List.mem_of_getLast? opened)
  obtain ⟨kind, -, rfl⟩ := spaceOf?_eq_some.1 opens
  exact isSpace_dotted ((proper s member).space kind)

theorem answersTo_declared (proper : ∀ s ∈ symbols, IsProper s) {d : Declared}
    (member : d ∈ declared position symbols) {owner : String} (asked : IsPlain owner) :
    d.answersTo owner = (d.symbol.name == owner) := by
  obtain ⟨before, after, rfl, entity, shown⟩ := mem_declared.1 member
  rw [List.forall_mem_append, List.forall_mem_cons] at proper
  have plain : IsPlain d.symbol.name := proper.2.1.name (by rw [entity]; rfl)
  exact answersTo_qualify plain (isSpace_begun proper.1) position asked shown

end

/-- A member goes to the entity of the type in whose body it stands. -/
def GoesHome (position : NamespacePosition) (before : List Placed) (p : Placed) (home : Symbol) :
    Prop :=
  (owner? (declared position (before.map (·.symbol))) p.symbol).map (·.symbol) = some home

theorem goesHome_iff {position : NamespacePosition} {before : List Placed} {p : Placed}
    {home : Symbol} (contained : p.symbol.container = some home.name) :
    GoesHome position before p home ↔
      ∃ front d rest, openTo (declared position (before.map (·.symbol))) = front ++ d :: rest ∧
        d.symbol = home ∧ d.answersTo home.name ∧
          ∀ d' ∈ front, d'.answersTo home.name = false := by
  rw [GoesHome, owner?, contained, Option.bind_some, Option.map_eq_some_iff]
  constructor
  · rintro ⟨d, found, same⟩
    obtain ⟨answers, front, rest, parts, others⟩ := List.find?_eq_some_iff_append.1 found
    exact ⟨front, d, rest, parts, same, answers, fun d' member => by simpa using others d' member⟩
  · rintro ⟨front, d, rest, parts, same, answers, others⟩
    refine ⟨d, List.find?_eq_some_iff_append.2 ⟨answers, front, rest, parts, ?_⟩, same⟩
    intro d' member
    rw [others d' member]
    rfl

theorem goesHome_of_distinct {language text : String} {position : NamespacePosition}
    {before after : List Placed} {p : Placed} {home : Symbol}
    (placed : placed? language text = some (before ++ p :: after))
    (housed : homeOf? p = some home) (contained : p.symbol.container = some home.name)
    (proper : ∀ s ∈ (before ++ p :: after).map (·.symbol), IsProper s)
    (distinct : ((((before ++ p :: after).map (·.symbol)).filter isType).map (·.name)).Nodup) :
    GoesHome position before p home := by
  rw [List.map_append] at proper distinct
  have properBefore : ∀ s ∈ before.map (·.symbol), IsProper s :=
    (List.forall_mem_append.1 proper).1
  have known : home ∈ before.map (·.symbol) :=
    outer_before placed home (List.mem_of_find?_eq_some housed)
  have typed : isType home = true := List.find?_some housed
  obtain ⟨kind, entity⟩ := Option.isSome_iff_exists.1 typed
  have plain : IsPlain home.name := (properBefore home known).name typed
  -- The home itself is among the types that are looked through.
  obtain ⟨front, back, parts⟩ := List.append_of_mem known
  let own : Declared := ⟨kind, Name.qualify home.name (begun front) separator position, home⟩
  have listed : own ∈ declared position (before.map (·.symbol)) :=
    mem_declared.2 ⟨front, back, parts, entity, rfl⟩
  have answers : own.answersTo home.name = true := by
    rw [answersTo_declared properBefore listed plain]
    exact beq_self_eq_true _
  rw [GoesHome, owner?, contained, Option.bind_some, Option.map_eq_some_iff]
  cases found : (openTo (declared position (before.map (·.symbol)))).find?
      (·.answersTo home.name) with
  | none =>
    exact absurd answers (List.find?_eq_none.1 found own (mem_openTo.2 listed))
  | some d =>
    refine ⟨d, rfl, ?_⟩
    have member : d ∈ declared position (before.map (·.symbol)) :=
      mem_openTo.1 (List.mem_of_find?_eq_some found)
    have named : d.symbol.name = home.name := by
      have answers' := List.find?_some found
      rw [answersTo_declared properBefore member plain] at answers'
      exact beq_iff_eq.1 answers'
    obtain ⟨front', back', parts', entity', -⟩ := mem_declared.1 member
    have among {s : Symbol} (there : s ∈ before.map (·.symbol)) (type : isType s = true) :
        s ∈ (before.map (·.symbol) ++ (p :: after).map (·.symbol)).filter isType :=
      List.mem_filter.2 ⟨List.mem_append_left _ there, type⟩
    have there : d.symbol ∈ before.map (·.symbol) := by simp [parts']
    have type : isType d.symbol = true := by rw [isType, entity']; rfl
    exact List.inj_on_of_nodup_map distinct (among there type) (among known typed) named

/-- A member in the body of a type goes home exactly when the search by name comes to that type
first, and among types of different plain names it always does. Going home means that the entity
of the type lists the member; the entities hold what went to them, the first of each name. -/
theorem members_go {d : Document} {settings : LanguageSettings} {t : TokenTree}
    (read : Analyzer.cfamily.read d settings = .ok t) :
    ∃ ps, placed? d.language d.text = some ps ∧
      let position := settings.position
      let symbols := ps.map (·.symbol)
      let lines := Text.lines d.text
      (∀ kind, t.entitiesOf kind =
        (firsts (·.name) (ofKind kind (declared position symbols))).map (fun own =>
          (own.entity lines).gathered
            ((joined position symbols kind own.name).filterMap (members? lines)))) ∧
      ∀ before p after home, ps = before ++ p :: after → homeOf? p = some home →
        p.symbol.container = some home.name →
        (GoesHome position before p home ↔
          ∃ front own rest,
            openTo (declared position (before.map (·.symbol))) = front ++ own :: rest ∧
              own.symbol = home ∧ own.answersTo home.name ∧
                ∀ other ∈ front, other.answersTo home.name = false) ∧
        ((∀ s ∈ symbols, IsProper s) → ((symbols.filter isType).map (·.name)).Nodup →
          GoesHome position before p home) ∧
        (GoesHome position before p home → ∀ members ∈ members? lines p.symbol,
          ∃ kind, entityKind? home.kind = some kind ∧
            ∃ e ∈ t.entitiesOf kind, e.span = some home.span ∧ AreListed members e) := by
  obtain ⟨ps, placed, rfl⟩ := read_eq_tree read
  refine ⟨ps, placed, fun kind => entitiesOf_tree _ _ _ kind, ?_⟩
  rintro before p after home rfl housed contained
  refine ⟨goesHome_iff contained, goesHome_of_distinct placed housed contained, ?_⟩
  intro goes members brings
  obtain ⟨d, owned, rfl⟩ := Option.map_eq_some_iff.1 goes
  rw [List.map_append]
  obtain ⟨-, -, -, entity, -⟩ := mem_declared.1 (mem_of_owner? owned)
  obtain ⟨e, member, -, spanned, listed⟩ := listed_of_owner? owned brings
  exact ⟨d.kind, entity, e, member, spanned, listed⟩

/-- Two types of different names in one namespace. -/
def twoTypes : Document :=
  { language := "cpp", file := "a.cpp"
    text := "namespace a { class Foo { int x; }; class Bar { int y; }; }" }

theorem members_go_twoTypes : ∃ ps t, Analyzer.cfamily.read twoTypes {} = .ok t ∧
    placed? twoTypes.language twoTypes.text = some ps ∧
      ∀ before p after home, ps = before ++ p :: after → homeOf? p = some home →
        p.symbol.container = some home.name → GoesHome .full before p home := by
  have fits : (Analyzer.cfamily.read twoTypes {}).toOption.isSome = true := by decide +kernel
  have symbols : (placed? twoTypes.language twoTypes.text).map (·.map (·.symbol)) = some [
      { name := "a", kind := .space, span := ⟨⟨0, 10⟩, ⟨0, 59⟩⟩ },
      { name := "Foo", kind := .class, span := ⟨⟨0, 20⟩, ⟨0, 34⟩⟩ },
      { name := "x", kind := .field, container := some "Foo", span := ⟨⟨0, 30⟩, ⟨0, 32⟩⟩ },
      { name := "Bar", kind := .class, span := ⟨⟨0, 42⟩, ⟨0, 56⟩⟩ },
      { name := "y", kind := .field, container := some "Bar", span := ⟨⟨0, 52⟩, ⟨0, 54⟩⟩ }] := by
    decide +kernel
  obtain ⟨t, read⟩ := exists_ok_of_isSome fits
  obtain ⟨ps, placed, -, goes⟩ := members_go read
  refine ⟨ps, t, read, placed, fun before p after home parts housed contained => ?_⟩
  rw [placed] at symbols
  have listed : ps.map (·.symbol) = _ := Option.some.inj symbols
  apply (goes before p after home parts housed contained).2.1
  · rw [listed]
    simp only [List.forall_mem_cons, List.not_mem_nil, false_imp_iff, implies_true, and_true]
    refine ⟨⟨nofun, fun _ => .last (by decide), nofun⟩, ⟨fun _ => by decide, nofun, nofun⟩,
      ⟨nofun, nofun, ?_⟩, ⟨fun _ => by decide, nofun, nofun⟩, ⟨nofun, nofun, ?_⟩⟩
    all_goals
      rintro owner ⟨⟩
      decide
  · rw [listed]
    decide

end CodeOutline.Analysis.CFamily
