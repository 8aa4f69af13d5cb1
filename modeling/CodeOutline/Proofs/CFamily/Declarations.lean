import CodeOutline.Analysis.CFamily
import CodeOutline.Proofs.Token.Collections
import CodeOutline.Proofs.Token.Distinct

/-!
The outline of a list of symbols, told from the list alone: the entities, each with the name it
is shown by, and the members, each with the entity it goes to. One symbol
opens a namespace, becomes an entity, goes as a member to an entity, or goes to a list outside of
all entities.
-/

set_option autoImplicit false

namespace CodeOutline.Analysis.CFamily

/-! ## One symbol -/

/-- The kinds of symbols that become entities. -/
def entityKind? : SymbolKind → Option EntityKind
  | .class | .struct => some .class
  | .interface => some .interface
  | _ => none

/-- The line of a symbol, as it is looked through for words. -/
def lineOf (lines : List String) (s : Symbol) : String := definitionLine lines s.span.start.line

/-- What a symbol that is a member brings to the entity that it goes to. -/
def members? (lines : List String) (s : Symbol) : Option EntityToken :=
  match s.kind with
  | .property | .field => some { name := "", properties := [{
      toVarToken := variableOf (lineOf lines s) s
      isReadonly := (wordsOf (lineOf lines s)).contains "readonly" }] }
  | .method | .constructor => some { name := "", methods := [methodOf (lineOf lines s) s] }
  | _ => none

structure KeepsEntities (g : TokenTree → TokenTree) : Prop where
  space : ∀ t, (g t).space = t.space
  entities : ∀ t kind, (g t).entitiesOf kind = t.entitiesOf kind
  mapped : ∀ t h, g (t.mapEntities h) = (g t).mapEntities h

inductive Does (lines : List String) (s : Symbol) : Prop
  | opens (kind : s.kind = .space)
      (step : ∀ position t, addSymbol lines position t s = t.setSpace (dotted s.name))
  | declares (kind : EntityKind) (entity : entityKind? s.kind = some kind)
      (step : ∀ position t, addSymbol lines position t s =
        t.addEntity kind (entityOf t position (lineOf lines s) s))
  | joins (members : EntityToken) (brings : members? lines s = some members)
      (step : ∀ position t, addSymbol lines position t s = inContainer t s (·.addMembers members))
  | passes (keeps : KeepsEntities (addSymbol lines .full · s))
      (step : ∀ position t, addSymbol lines position t s = addSymbol lines .full t s)

variable (lines : List String) {s : Symbol}

theorem does (s : Symbol) : Does lines s := by
  obtain ⟨name, kind, container, span⟩ := s
  cases kind
  case space => exact .opens rfl (fun _ _ => rfl)
  case «class» | struct => exact .declares .class rfl (fun _ _ => rfl)
  case interface => exact .declares .interface rfl (fun _ _ => rfl)
  case property | field | method | constructor => exact .joins _ rfl (fun _ _ => rfl)
  case module | package | var | function =>
    refine .passes ⟨fun _ => rfl, fun _ kind => ?_, fun _ _ => rfl⟩ (fun _ _ => rfl)
    cases kind <;> rfl

variable {lines}

theorem addMembers_rename {members : EntityToken} (brings : members? lines s = some members)
    (e : EntityToken) (name : String) :
    { e with name }.addMembers members = { e.addMembers members with name } ∧
      (e.addMembers members).name = e.name := by
  unfold members? at brings
  split at brings <;> cases brings <;> exact ⟨rfl, rfl⟩

/-! ## All symbols -/

open BuildStep (names additions additionsOf)

/-- The namespace that a symbol begins. -/
def spaceOf? (s : Symbol) : Option String :=
  if s.kind = .space then nonempty? (dotted s.name) else none

theorem nonempty?_eq_some {s t : String} : nonempty? s = some t ↔ t ≠ "" ∧ s = t := by
  unfold nonempty?
  split
  · next empty =>
    refine iff_of_false nofun ?_
    rintro ⟨filled, rfl⟩
    exact filled (by simpa using empty)
  · next filled =>
    rw [Option.some.injEq]
    refine ⟨?_, And.right⟩
    rintro rfl
    exact ⟨by simpa using filled, rfl⟩

theorem spaceOf?_eq_some {s : Symbol} {ns : String} :
    spaceOf? s = some ns ↔ s.kind = .space ∧ ns ≠ "" ∧ dotted s.name = ns := by
  rw [spaceOf?, Option.ite_none_right_eq_some, nonempty?_eq_some]

/-- The namespace in effect behind symbols: the last one that they begin. -/
def begun (symbols : List Symbol) : Option String := (symbols.filterMap spaceOf?).getLast?

theorem begun_concat (symbols : List Symbol) (s : Symbol) :
    begun (symbols ++ [s]) = (spaceOf? s).or (begun symbols) := by
  rw [begun, List.filterMap_append, begun]
  cases opened : spaceOf? s with
  | none =>
    rw [List.filterMap_cons_none opened, List.filterMap_nil, List.append_nil, Option.none_or]
  | some ns =>
    rw [List.filterMap_cons_some opened, List.filterMap_nil, List.getLast?_concat, Option.some_or]

theorem space_addSymbol (lines : List String) (position : NamespacePosition) (t : TokenTree)
    (s : Symbol) : (addSymbol lines position t s).space = (spaceOf? s).or t.space := by
  cases kind : s.kind
  case space =>
    simp only [addSymbol, spaceOf?, kind, if_pos, TokenTree.setSpace, nonempty?]
    split <;> rfl
  case property | field | method | constructor =>
    have outside (f : EntityToken → EntityToken) : (inContainer t s f).space = t.space := by
      unfold inContainer
      split
      · next owner _ =>
        obtain ⟨classes, interfaces, changed⟩ := t.updateOpen_frame owner separator f
        rw [changed]
      · rfl
    simp only [addSymbol, spaceOf?, kind, outside]
    rfl
  case «class» | struct | interface | module | package | var | function =>
    simp only [addSymbol, spaceOf?, kind]
    rfl

/-! Entities -/

/-- A symbol that becomes an entity, with the name that it is shown by. -/
structure Declared where
  kind : EntityKind
  name : String
  symbol : Symbol

/-- The entity as it is before members go to it. -/
def Declared.entity (lines : List String) (d : Declared) : EntityToken :=
  { entityOf .empty .none (lineOf lines d.symbol) d.symbol with name := d.name }

section

variable (position : NamespacePosition)

/-- What a symbol declares in a namespace. -/
def declare? (space : Option String) (s : Symbol) : Option Declared :=
  (entityKind? s.kind).map (fun kind => ⟨kind, Name.qualify s.name space separator position, s⟩)

def declared (symbols : List Symbol) : List Declared :=
  (withBefore [] symbols).filterMap (fun (before, s) => declare? position (begun before) s)

/-- The declarations of a kind. -/
def ofKind (kind : EntityKind) (ds : List Declared) : List Declared := ds.filter (·.kind = kind)

/-! Members -/

/-- The declaration has that name, as a whole or without its namespace. -/
def Declared.answersTo (owner : String) (d : Declared) : Bool :=
  TokenTree.answersTo owner separator { name := d.name }

/-- The declarations that members go to, in the order in which they are looked through. -/
def openTo (ds : List Declared) : List Declared := ofKind .class ds ++ ofKind .interface ds

/-- The declaration that a symbol goes to as a member. -/
def owner? (ds : List Declared) (s : Symbol) : Option Declared :=
  s.container.bind (fun owner => (openTo ds).find? (·.answersTo owner))

/-- The entity that a symbol goes to, by kind and name. -/
def goesTo? (ds : List Declared) (s : Symbol) : Option (EntityKind × String) :=
  (owner? ds s).map (fun d => (d.kind, d.name))

/-- The symbols that go to the entity of a kind and name. -/
def joined (symbols : List Symbol) (kind : EntityKind) (name : String) : List Symbol :=
  ((withBefore [] symbols).filter (fun (before, s) =>
    goesTo? (declared position before) s = some (kind, name))).map (·.2)

theorem joined_concat (symbols : List Symbol) (s : Symbol) (kind : EntityKind) (name : String) :
    joined position (symbols ++ [s]) kind name = joined position symbols kind name ++
      if goesTo? (declared position symbols) s = some (kind, name) then [s] else [] := by
  rw [joined, withBefore_concat, List.filter_append, List.map_append, List.nil_append, joined]
  by_cases goes : goesTo? (declared position symbols) s = some (kind, name) <;> simp [goes]

/-! Steps -/

variable (lines : List String)

/-- What a symbol adds to an outline in whose namespace it stands. -/
def stepOf? (space : Option String) (s : Symbol) : Option BuildStep :=
  match s.kind with
  | .space => some (.space (dotted s.name))
  | .module | .package => some (.importOf { name := s.name, span := some s.span })
  | .class | .struct | .interface =>
    (declare? position space s).map (fun d => .entity d.kind (d.entity lines))
  | .property | .field | .method | .constructor =>
    s.container.bind (fun owner => (members? lines s).map (.openEntity owner separator ·))
  | .var => some (.var (variableOf (lineOf lines s) s))
  | .function => some (.function { methodOf (lineOf lines s) s with isStatic := true })

theorem addSymbol_eq_step (t : TokenTree) (s : Symbol) :
    addSymbol lines position t s = (stepOf? position lines t.space s).elim t t.step := by
  cases kind : s.kind
  case property | field | method | constructor =>
    simp only [addSymbol, stepOf?, members?, kind, inContainer]
    cases s.container <;> rfl
  case «class» | struct | interface =>
    simp only [addSymbol, stepOf?, declare?, entityKind?, kind, Option.map_some]
    rfl
  case space | module | package | var | function =>
    simp only [addSymbol, stepOf?, kind]
    rfl

def steps (symbols : List Symbol) : List BuildStep :=
  (withBefore [] symbols).filterMap (fun (before, s) => stepOf? position lines (begun before) s)

theorem steps_concat (symbols : List Symbol) (s : Symbol) :
    steps position lines (symbols ++ [s]) =
      steps position lines symbols ++ (stepOf? position lines (begun symbols) s).toList := by
  rw [steps, withBefore_concat, List.filterMap_append, List.nil_append, steps]
  cases stepped : stepOf? position lines (begun symbols) s with
  | none => simp [stepped]
  | some step => simp [stepped]

theorem foldl_addSymbol (symbols : List Symbol) :
    symbols.foldl (addSymbol lines position) .empty =
        TokenTree.build (steps position lines symbols) ∧
      (symbols.foldl (addSymbol lines position) .empty).space = begun symbols := by
  induction symbols using List.reverseRecOn with
  | nil => exact ⟨rfl, rfl⟩
  | append_singleton symbols s ih =>
    obtain ⟨built, space⟩ := ih
    rw [List.foldl_append, List.foldl_cons, List.foldl_nil]
    constructor
    · rw [addSymbol_eq_step, space, built, steps_concat]
      cases stepOf? position lines (begun symbols) s with
      | none => rw [Option.elim_none, Option.toList_none, List.append_nil]
      | some step => rw [Option.elim_some, Option.toList_some, TokenTree.build_concat]
    · rw [space_addSymbol, space, begun_concat]

variable (symbols : List Symbol)

theorem filterMap_entity? (kind : EntityKind) :
    (steps position lines symbols).filterMap (BuildStep.entity? kind) =
      (ofKind kind (declared position symbols)).map (Declared.entity lines) := by
  have each (space : Option String) (s : Symbol) :
      (stepOf? position lines space s).bind (BuildStep.entity? kind) =
        ((declare? position space s).filter (·.kind = kind)).map (Declared.entity lines) := by
    cases own : s.kind
    case «class» | struct | interface =>
      simp only [stepOf?, declare?, entityKind?, own, Option.map_some, Option.bind_some,
        BuildStep.entity?, Option.filter_some, decide_eq_true_eq]
      split <;> rfl
    case property | field | method | constructor =>
      simp only [stepOf?, declare?, entityKind?, own, members?]
      cases s.container <;> rfl
    case space | module | package | var | function =>
      simp only [stepOf?, declare?, entityKind?, own]
      rfl
  rw [steps, List.filterMap_filterMap, ofKind, declared, List.filter_filterMap, List.map_filterMap]
  simp only [each]

theorem names_steps (kind : EntityKind) :
    names kind (steps position lines symbols) =
      (firsts (·.name) (ofKind kind (declared position symbols))).map (·.name) := by
  rw [names, filterMap_entity?, firsts_map, List.map_map]
  rfl

theorem target?_steps (owner : String) (members : EntityToken) :
    (BuildStep.openEntity owner separator members).target?
        (names .class (steps position lines symbols))
        (names .interface (steps position lines symbols)) =
      ((openTo (declared position symbols)).find? (·.answersTo owner)).map
        (fun d => (d.kind, d.name)) := by
  have one (kind : EntityKind) :
      ((names kind (steps position lines symbols)).map (fun n => (kind, n))).find?
        (fun shown => TokenTree.answersTo owner separator { name := shown.2 }) =
        ((ofKind kind (declared position symbols)).find? (·.answersTo owner)).map
          (fun d => (d.kind, d.name)) := by
    have firstOfName := find?_firsts (·.name)
      (fun n => TokenTree.answersTo owner separator { name := n })
      (ofKind kind (declared position symbols))
    have typed : ∀ d, (ofKind kind (declared position symbols)).find? (·.answersTo owner) = some d →
        d.kind = kind := by
      intro d found
      simpa using (List.mem_filter.1 (List.mem_of_find?_eq_some found)).2
    rw [names_steps, List.map_map, List.find?_map]
    simp only [Function.comp_def]
    rw [firstOfName]
    refine Option.map_congr (fun d found => ?_)
    rw [typed d found]
  have both := congrArg₂ Option.or (one .class) (one .interface)
  rw [BuildStep.target?, List.find?_append, openTo, List.find?_append, Option.map_or]
  exact both

private theorem additionsOf_step (kind : EntityKind) (name : String) (s : Symbol) :
    (stepOf? position lines (begun symbols) s).toList.flatMap
        (additionsOf kind name (steps position lines symbols)) =
      (if goesTo? (declared position symbols) s = some (kind, name) then [s] else []).filterMap
        (members? lines) := by
  cases brings : members? lines s with
  | none =>
    have nothing : (if goesTo? (declared position symbols) s = some (kind, name) then [s]
        else []).filterMap (members? lines) = [] := by
      split
      · rw [List.filterMap_cons_none brings, List.filterMap_nil]
      · rfl
    rw [nothing]
    cases own : s.kind
    case property | field | method | constructor =>
      simp only [members?, own, reduceCtorEq] at brings
    case «class» | struct | interface | space | module | package | var | function =>
      simp only [stepOf?, declare?, entityKind?, own]
      rfl
  | some members =>
    have step : stepOf? position lines (begun symbols) s =
        s.container.map (.openEntity · separator members) := by
      cases own : s.kind
      case property | field | method | constructor =>
        simp only [stepOf?, own, brings, Option.map_some]
        cases s.container <;> rfl
      all_goals simp only [members?, own, reduceCtorEq] at brings
    have target (owner : String) (held : s.container = some owner) :
        (BuildStep.openEntity owner separator members).target?
          (names .class (steps position lines symbols))
          (names .interface (steps position lines symbols)) =
        goesTo? (declared position symbols) s := by
      rw [target?_steps, goesTo?, owner?, held, Option.bind_some]
    rw [step]
    cases held : s.container with
    | none =>
      have nowhere : goesTo? (declared position symbols) s = none := by
        rw [goesTo?, owner?, held]
        rfl
      simp [nowhere]
    | some owner =>
      rw [Option.map_some, Option.toList_some, List.flatMap_singleton, additionsOf,
        target owner held]
      split
      · rw [List.filterMap_cons_some brings]
        rfl
      · rfl

theorem additions_steps (kind : EntityKind) (name : String) :
    additions kind name [] (steps position lines symbols) =
      (joined position symbols kind name).filterMap (members? lines) := by
  induction symbols using List.reverseRecOn with
  | nil => rfl
  | append_singleton symbols s ih =>
    rw [steps_concat, BuildStep.additions_append_toList, ih, additionsOf_step, joined_concat,
      List.filterMap_append]

/-- Each entity is the first declaration of its kind that is shown by its name, with the members
that went to it. -/
theorem entitiesOf_tree (text : String) (settings : LanguageSettings) (kind : EntityKind) :
    (tree text symbols settings).entitiesOf kind =
      (firsts (·.name) (ofKind kind (declared settings.position symbols))).map (fun d =>
        (d.entity (Text.lines text)).gathered ((joined settings.position symbols kind d.name).filterMap
          (members? (Text.lines text)))) := by
  rw [tree, (foldl_addSymbol settings.position (Text.lines text) symbols).1,
    TokenTree.entitiesOf_build, TokenTree.entitiesAfter, filterMap_entity?, firsts_map,
    List.map_map]
  simp only [additions_steps]
  rfl

end

end CodeOutline.Analysis.CFamily
