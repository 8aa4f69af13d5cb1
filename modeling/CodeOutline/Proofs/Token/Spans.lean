import CodeOutline.Proofs.Token.Columns
import CodeOutline.Proofs.Token.Placed

/-!
What holds of all places of a tree, collection by collection. Additions keep it when the places that
are added have it, and what a change makes of a tree is told by what it makes of every place.
-/

set_option autoImplicit false

namespace CodeOutline

open EntityToken (insertNew)

/-! ## Changes that are the same at every place -/

section Same

variable {f g : Span → Span}

private theorem map_span_congr {span : Option Span} (same : ∀ s ∈ span.toList, f s = g s) :
    span.map f = span.map g := by
  cases span with
  | none => rfl
  | some s => exact congrArg some (same s (List.mem_singleton_self s))

theorem VarToken.mapSpan_congr {v : VarToken} (same : ∀ s ∈ v.span.toList, f s = g s) :
    v.mapSpan f = v.mapSpan g := by
  rw [mapSpan, mapSpan, map_span_congr same]

theorem MethodToken.mapSpan_congr {m : MethodToken} (same : ∀ s ∈ m.spans, f s = g s) :
    m.mapSpan f = m.mapSpan g := by
  obtain ⟨own, inner⟩ := List.forall_mem_append.1 same
  have arguments : m.arguments.map (·.mapSpan f) = m.arguments.map (·.mapSpan g) :=
    List.map_congr_left (fun a member =>
      VarToken.mapSpan_congr (List.forall_mem_flatMap.1 inner a member))
  rw [mapSpan, mapSpan, map_span_congr own, arguments]

mutual

theorem EntityToken.mapSpan_congr :
    (e : EntityToken) → (∀ s ∈ e.spans, f s = g s) → e.mapSpan f = e.mapSpan g
  | ⟨_, span, _, constants, properties, accessors, methods, traits, _, _⟩, same => by
    simp only [EntityToken.spans, List.forall_mem_append, List.forall_mem_flatMap] at same
    obtain ⟨⟨⟨⟨⟨own, constant⟩, property⟩, accessor⟩, method⟩, trait⟩ := same
    have constants : constants.map (·.mapSpan f) = constants.map (·.mapSpan g) :=
      List.map_congr_left (fun c member => VarToken.mapSpan_congr (constant c member))
    have properties : properties.map (·.mapSpan f) = properties.map (·.mapSpan g) :=
      List.map_congr_left (fun p member => by
        rw [PropertyToken.mapSpan, PropertyToken.mapSpan, map_span_congr (property p member)])
    have accessors : accessors.map (·.mapSpan f) = accessors.map (·.mapSpan g) :=
      List.map_congr_left (fun a member => by
        rw [AccessorToken.mapSpan, AccessorToken.mapSpan, map_span_congr (accessor a member)])
    have methods : methods.map (·.mapSpan f) = methods.map (·.mapSpan g) :=
      List.map_congr_left (fun m member => MethodToken.mapSpan_congr (method m member))
    rw [EntityToken.mapSpan, EntityToken.mapSpan, map_span_congr own, constants, properties,
      accessors, methods, mapEntitySpans_congr traits trait]

theorem mapEntitySpans_congr : (es : List EntityToken) →
    (∀ s ∈ entitySpans es, f s = g s) → mapEntitySpans f es = mapEntitySpans g es
  | [], _ => rfl
  | e :: es, same => by
    obtain ⟨first, later⟩ := List.forall_mem_append.1 same
    rw [mapEntitySpans, mapEntitySpans, e.mapSpan_congr first, mapEntitySpans_congr es later]

end

mutual

theorem DataToken.mapSpan_congr :
    (d : DataToken) → (∀ s ∈ d.spans, f s = g s) → d.mapSpan f = d.mapSpan g
  | ⟨_, span, _, _, children⟩, same => by
    rw [DataToken.spans] at same
    obtain ⟨own, inner⟩ := List.forall_mem_append.1 same
    rw [DataToken.mapSpan, DataToken.mapSpan, map_span_congr own, mapDataSpans_congr children inner]

theorem mapDataSpans_congr : (ds : List DataToken) →
    (∀ s ∈ dataSpans ds, f s = g s) → mapDataSpans f ds = mapDataSpans g ds
  | [], _ => rfl
  | d :: ds, same => by
    obtain ⟨first, later⟩ := List.forall_mem_append.1 same
    rw [mapDataSpans, mapDataSpans, d.mapSpan_congr first, mapDataSpans_congr ds later]

end

private theorem map_values_congr {α : Type} {g h : α → α} {m : OrderedMap α}
    (each : ∀ entry ∈ m.entries, g entry.2 = h entry.2) : m.map g = m.map h :=
  OrderedMap.ext (List.map_congr_left (fun entry member =>
    congrArg (Prod.mk entry.1) (each entry member)))

theorem SelectorMap.mapSpan_congr {m : SelectorMap} (same : ∀ s ∈ m.spans, f s = g s) :
    m.mapSpan f = m.mapSpan g := by
  simp only [SelectorMap.spans, List.forall_mem_flatMap] at same
  exact map_values_congr (fun entry member =>
    List.map_congr_left (fun d inside => VarToken.mapSpan_congr (same entry member d inside)))

theorem TokenTree.mapSpan_eq_mapSpan_iff {t : TokenTree} :
    t.mapSpan f = t.mapSpan g ↔ ∀ s ∈ t.spans, f s = g s := by
  constructor
  · intro same
    have listed : t.spans.map f = t.spans.map g := by
      rw [← t.spans_mapSpan f, same, t.spans_mapSpan g]
    exact List.map_inj_left.1 listed
  · intro same
    obtain ⟨strict, space, imports, interfaces, traits, classes, functions, vars, rules, items,
      nodes, media, data⟩ := t
    simp only [TokenTree.spans, List.forall_mem_append, List.forall_mem_flatMap] at same
    obtain ⟨⟨⟨⟨⟨⟨⟨⟨⟨⟨ofImports, ofInterfaces⟩, ofTraits⟩, ofClasses⟩, ofFunctions⟩, ofVars⟩,
      ofRules⟩, ofItems⟩, ofNodes⟩, ofMedia⟩, ofData⟩ := same
    have imports : imports.map (·.mapSpan f) = imports.map (·.mapSpan g) :=
      List.map_congr_left (fun i member => by
        rw [ImportToken.mapSpan, ImportToken.mapSpan, map_span_congr (ofImports i member)])
    have listed {vs : List VarToken} (each : ∀ v ∈ vs, ∀ s ∈ v.span.toList, f s = g s) :
        vs.map (·.mapSpan f) = vs.map (·.mapSpan g) :=
      List.map_congr_left (fun v member => VarToken.mapSpan_congr (each v member))
    have functions : functions.map (·.mapSpan f) = functions.map (·.mapSpan g) :=
      List.map_congr_left (fun m member => MethodToken.mapSpan_congr (ofFunctions m member))
    have media : media.map (SelectorMap.mapSpan f) = media.map (SelectorMap.mapSpan g) :=
      map_values_congr (fun entry member => SelectorMap.mapSpan_congr (ofMedia entry member))
    have data : data.map (·.mapSpan f) = data.map (·.mapSpan g) := by
      cases data with
      | none => rfl
      | some d => exact congrArg some (d.mapSpan_congr ofData)
    simp only [TokenTree.mapSpan, imports, mapEntitySpans_congr interfaces ofInterfaces,
      mapEntitySpans_congr traits ofTraits, mapEntitySpans_congr classes ofClasses, functions,
      listed ofVars, listed ofRules, listed ofItems, SelectorMap.mapSpan_congr ofNodes, media, data]

end Same

/-! ## Changes that leave every place -/

section Fixed

private theorem map_eq_self {α : Type} {g : α → α} {as : List α} (each : ∀ a, g a = a) :
    as.map g = as := (List.map_congr_left (fun a _ => each a)).trans (List.map_id as)

theorem VarToken.mapSpan_id (v : VarToken) : v.mapSpan id = v := by
  rw [mapSpan, Option.map_id, id_eq]

theorem MethodToken.mapSpan_id (m : MethodToken) : m.mapSpan id = m := by
  rw [mapSpan, Option.map_id, id_eq, map_eq_self VarToken.mapSpan_id]

mutual

theorem EntityToken.mapSpan_id : (e : EntityToken) → e.mapSpan id = e
  | ⟨_, span, _, constants, properties, accessors, methods, traits, _, _⟩ => by
    rw [EntityToken.mapSpan, Option.map_id, id_eq, map_eq_self VarToken.mapSpan_id,
      map_eq_self (fun p => by rw [PropertyToken.mapSpan, Option.map_id, id_eq]),
      map_eq_self (fun a => by rw [AccessorToken.mapSpan, Option.map_id, id_eq]),
      map_eq_self MethodToken.mapSpan_id, mapEntitySpans_id traits]

theorem mapEntitySpans_id : (es : List EntityToken) → mapEntitySpans id es = es
  | [] => rfl
  | e :: es => by rw [mapEntitySpans, e.mapSpan_id, mapEntitySpans_id es]

end

mutual

theorem DataToken.mapSpan_id : (d : DataToken) → d.mapSpan id = d
  | ⟨_, span, _, _, children⟩ => by
    rw [DataToken.mapSpan, Option.map_id, id_eq, mapDataSpans_id children]

theorem mapDataSpans_id : (ds : List DataToken) → mapDataSpans id ds = ds
  | [] => rfl
  | d :: ds => by rw [mapDataSpans, d.mapSpan_id, mapDataSpans_id ds]

end

theorem TokenTree.mapSpan_id (t : TokenTree) : t.mapSpan id = t := by
  obtain ⟨strict, space, imports, interfaces, traits, classes, functions, vars, rules, items,
    nodes, media, data⟩ := t
  have ofImport (i : ImportToken) : i.mapSpan id = i := by
    rw [ImportToken.mapSpan, Option.map_id, id_eq]
  have ofMap (m : SelectorMap) : m.mapSpan id = m := OrderedMap.ext (map_eq_self (fun entry =>
    congrArg (Prod.mk entry.1) (map_eq_self VarToken.mapSpan_id)))
  have media : media.map (SelectorMap.mapSpan id) = media :=
    OrderedMap.ext (map_eq_self (fun entry => congrArg (Prod.mk entry.1) (ofMap entry.2)))
  have data : data.map (·.mapSpan id) = data := by
    cases data with
    | none => rfl
    | some d => exact congrArg some d.mapSpan_id
  simp only [TokenTree.mapSpan, map_eq_self ofImport, mapEntitySpans_id,
    map_eq_self MethodToken.mapSpan_id, map_eq_self VarToken.mapSpan_id, ofMap, media, data]

theorem TokenTree.mapSpan_eq_iff {f : Span → Span} {t : TokenTree} :
    t.mapSpan f = t ↔ ∀ s ∈ t.spans, f s = s := by
  have apart : t.mapSpan f = t.mapSpan id ↔ ∀ s ∈ t.spans, f s = s := mapSpan_eq_mapSpan_iff
  rwa [t.mapSpan_id] at apart

end Fixed

/-! ## What all places have -/

section Each

variable {P : Span → Prop}

theorem forall_methodSpans {m : MethodToken} :
    (∀ s ∈ m.spans, P s) ↔ (∀ s ∈ m.span, P s) ∧ ∀ a ∈ m.arguments, ∀ s ∈ a.span, P s := by
  simp only [MethodToken.spans, List.forall_mem_append, List.forall_mem_flatMap, Option.mem_toList,
    Option.mem_def]

theorem entitySpans_eq_flatMap (es : List EntityToken) :
    entitySpans es = es.flatMap EntityToken.spans := by
  induction es with
  | nil => rfl
  | cons e es ih => rw [entitySpans, ih, List.flatMap_cons]

theorem dataSpans_eq_flatMap (ds : List DataToken) : dataSpans ds = ds.flatMap DataToken.spans := by
  induction ds with
  | nil => rfl
  | cons d ds ih => rw [dataSpans, ih, List.flatMap_cons]

end Each

structure EntityToken.EachSpan (P : Span → Prop) (e : EntityToken) : Prop where
  own : ∀ s ∈ e.span, P s
  constants : ∀ c ∈ e.constants, ∀ s ∈ c.span, P s
  properties : ∀ p ∈ e.properties, ∀ s ∈ p.span, P s
  accessors : ∀ a ∈ e.accessors, ∀ s ∈ a.span, P s
  methods : ∀ m ∈ e.methods, ∀ s ∈ m.spans, P s
  traits : ∀ t ∈ e.traits, ∀ s ∈ t.spans, P s

variable {P : Span → Prop}

namespace EntityToken.EachSpan

variable {e : EntityToken}

theorem iff_spans : e.EachSpan P ↔ ∀ s ∈ e.spans, P s := by
  obtain ⟨name, span, visibility, constants, properties, accessors, methods, traits, _, _⟩ := e
  simp only [EntityToken.spans, entitySpans_eq_flatMap, List.forall_mem_append,
    List.forall_mem_flatMap, Option.mem_toList]
  constructor
  · intro each
    exact ⟨⟨⟨⟨⟨each.own, each.constants⟩, each.properties⟩, each.accessors⟩, each.methods⟩,
      each.traits⟩
  · rintro ⟨⟨⟨⟨⟨own, constants⟩, properties⟩, accessors⟩, methods⟩, traits⟩
    exact ⟨own, constants, properties, accessors, methods, traits⟩

theorem of_bare (own : ∀ s ∈ e.span, P s) (bare : e.hasMembers = false) : e.EachSpan P := by
  simp only [EntityToken.hasMembers, Bool.not_eq_false', Bool.and_eq_true, List.isEmpty_iff] at bare
  obtain ⟨⟨⟨⟨constants, properties⟩, accessors⟩, methods⟩, traits⟩ := bare
  constructor
  case own => exact own
  case constants => rw [constants]; exact List.forall_mem_nil _
  case properties => rw [properties]; exact List.forall_mem_nil _
  case accessors => rw [accessors]; exact List.forall_mem_nil _
  case methods => rw [methods]; exact List.forall_mem_nil _
  case traits => rw [traits]; exact List.forall_mem_nil _

variable (each : e.EachSpan P)

include each

theorem addConstant {c : VarToken} (new : ∀ s ∈ c.span, P s) : (e.addConstant c).EachSpan P :=
  { each with constants := forall_insertNew each.constants new }

theorem addProperty {p : PropertyToken} (new : ∀ s ∈ p.span, P s) :
    (e.addProperty p).EachSpan P :=
  { each with properties := forall_insertNew each.properties new }

theorem addAccessor {a : AccessorToken} (new : ∀ s ∈ a.span, P s) :
    (e.addAccessor a).EachSpan P :=
  { each with accessors := forall_insertNew each.accessors new }

theorem addMethod {m : MethodToken} (new : ∀ s ∈ m.spans, P s) : (e.addMethod m).EachSpan P :=
  { each with methods := forall_insertNew each.methods new }

theorem addTrait {t : EntityToken} (new : t.EachSpan P) : (e.addTrait t).EachSpan P :=
  { each with traits := forall_insertNew each.traits (iff_spans.1 new) }

theorem foldl {α : Type} {g : EntityToken → α → EntityToken} {as : List α}
    (step : ∀ {e : EntityToken}, e.EachSpan P → ∀ a ∈ as, (g e a).EachSpan P) :
    (as.foldl g e).EachSpan P := by
  induction as generalizing e with
  | nil => exact each
  | cons a as ih =>
    refine ih (step each a List.mem_cons_self) (fun each b member => ?_)
    exact step each b (List.mem_cons_of_mem a member)

end EntityToken.EachSpan

structure TokenTree.EachSpan (P : Span → Prop) (t : TokenTree) : Prop where
  imports : ∀ i ∈ t.imports, ∀ s ∈ i.span, P s
  entities : ∀ kind, ∀ e ∈ t.entitiesOf kind, e.EachSpan P
  functions : ∀ m ∈ t.functions, ∀ s ∈ m.spans, P s
  vars : ∀ v ∈ t.vars, ∀ s ∈ v.span, P s
  rules : ∀ v ∈ t.rules, ∀ s ∈ v.span, P s
  items : ∀ v ∈ t.items, ∀ s ∈ v.span, P s
  nodes : ∀ s ∈ t.nodes.spans, P s
  media : ∀ entry ∈ t.media.entries, ∀ s ∈ entry.2.spans, P s
  data : ∀ d ∈ t.data, ∀ s ∈ d.spans, P s

theorem SelectorMap.forall_extend {m : SelectorMap} {selector : String} {ds : List VarToken}
    (old : ∀ s ∈ m.spans, P s) (new : ∀ d ∈ ds, ∀ s ∈ d.span, P s) :
    ∀ s ∈ (m.extend selector ds).spans, P s := by
  simp only [SelectorMap.spans, List.forall_mem_flatMap, Option.mem_toList] at old ⊢
  refine forall_upsertEntry (R := fun ws : List VarToken => ∀ w ∈ ws, ∀ s, w.span = some s → P s)
    old (fun o before => ?_)
  refine List.forall_mem_append.2 ⟨?_, new⟩
  cases o with
  | none => exact List.forall_mem_nil _
  | some ws => exact before ws rfl

namespace TokenTree.EachSpan

variable {t : TokenTree}

theorem iff_spans : t.EachSpan P ↔ ∀ s ∈ t.spans, P s := by
  simp only [TokenTree.spans, entitySpans_eq_flatMap, List.forall_mem_append,
    List.forall_mem_flatMap, Option.mem_toList]
  have entity (e : EntityToken) : (∀ s ∈ e.spans, P s) ↔ e.EachSpan P :=
    EntityToken.EachSpan.iff_spans.symm
  simp only [entity]
  constructor
  · intro each
    refine ⟨⟨⟨⟨⟨⟨⟨⟨⟨⟨each.imports, each.entities .interface⟩, each.entities .trait⟩,
      each.entities .class⟩, each.functions⟩, each.vars⟩, each.rules⟩, each.items⟩, each.nodes⟩,
      each.media⟩, ?_⟩
    cases root : t.data with
    | none => exact List.forall_mem_nil _
    | some d => exact each.data d root
  · rintro ⟨⟨⟨⟨⟨⟨⟨⟨⟨⟨imports, interfaces⟩, traits⟩, classes⟩, functions⟩, vars⟩, rules⟩, items⟩,
      nodes⟩, media⟩, data⟩
    refine ⟨imports, fun kind => ?_, functions, vars, rules, items, nodes, media, fun d root => ?_⟩
    · cases kind <;> assumption
    · rw [Option.mem_def.1 root] at data
      exact data

theorem empty : TokenTree.empty.EachSpan P where
  imports := List.forall_mem_nil _
  entities kind := by cases kind <;> exact List.forall_mem_nil _
  functions := List.forall_mem_nil _
  vars := List.forall_mem_nil _
  rules := List.forall_mem_nil _
  items := List.forall_mem_nil _
  nodes := List.forall_mem_nil _
  media := List.forall_mem_nil _
  data _ absent := absurd absent (Option.not_mem_none _)

variable (each : t.EachSpan P)

include each

theorem setStrict (b : Bool) : (t.setStrict b).EachSpan P :=
  { each with entities := each.entities }

theorem setSpace (ns : String) : (t.setSpace ns).EachSpan P := by
  unfold TokenTree.setSpace
  split
  · exact each
  · exact { each with entities := each.entities }

theorem addImport {i : ImportToken} (new : ∀ s ∈ i.span, P s) : (t.addImport i).EachSpan P :=
  { each with imports := forall_insertNew each.imports new, entities := each.entities }

theorem addFunction {m : MethodToken} (new : ∀ s ∈ m.spans, P s) : (t.addFunction m).EachSpan P :=
  { each with functions := forall_insertNew each.functions new, entities := each.entities }

theorem addVariable {v : VarToken} (new : ∀ s ∈ v.span, P s) : (t.addVariable v).EachSpan P :=
  { each with vars := forall_insertNew each.vars new, entities := each.entities }

theorem addRule {v : VarToken} (new : ∀ s ∈ v.span, P s) : (t.addRule v).EachSpan P :=
  { each with rules := forall_insertNew each.rules new, entities := each.entities }

theorem addItem {v : VarToken} (new : ∀ s ∈ v.span, P s) : (t.addItem v).EachSpan P :=
  { each with items := forall_insertNew each.items new, entities := each.entities }

theorem addDeclarations {selector : String} {ds : List VarToken}
    (new : ∀ d ∈ ds, ∀ s ∈ d.span, P s) : (t.addDeclarations selector ds).EachSpan P :=
  { each with nodes := SelectorMap.forall_extend each.nodes new, entities := each.entities }

theorem addMediaDeclarations {condition selector : String} {ds : List VarToken}
    (new : ∀ d ∈ ds, ∀ s ∈ d.span, P s) :
    (t.addMediaDeclarations condition selector ds).EachSpan P := by
  refine { each with entities := each.entities, media := ?_ }
  refine forall_upsertEntry (R := fun m => ∀ s ∈ SelectorMap.spans m, P s) each.media
    (fun o before => SelectorMap.forall_extend ?_ new)
  cases o with
  | none => exact List.forall_mem_nil _
  | some m => exact before m rfl

theorem setData {root : DataToken} (new : ∀ s ∈ root.spans, P s) : (t.setData root).EachSpan P := by
  refine { each with entities := each.entities, data := ?_ }
  rintro _ ⟨⟩
  exact new

theorem addEntity {kind : EntityKind} {e : EntityToken} (new : e.EachSpan P) :
    (t.addEntity kind e).EachSpan P := by
  have entities (k : EntityKind) : ∀ x ∈ (t.addEntity kind e).entitiesOf k, x.EachSpan P := by
    have added : ∀ x ∈ insertNew (·.name) (t.entitiesOf kind) e, x.EachSpan P :=
      forall_insertNew (each.entities kind) new
    have kept := each.entities k
    cases kind <;> cases k <;> assumption
  cases kind <;> exact { each with entities }

private theorem changeClasses {classes : List EntityToken} (changed : ∀ e ∈ classes, e.EachSpan P) :
    ({ t with classes } : TokenTree).EachSpan P := by
  refine { each with entities := fun kind => ?_ }
  cases kind with
  | interface => exact each.entities .interface
  | trait => exact each.entities .trait
  | «class» => exact changed

theorem updateLastClass {g : EntityToken → EntityToken}
    (keeps : ∀ e, e.EachSpan P → (g e).EachSpan P) : (t.updateLastClass g).EachSpan P :=
  each.changeClasses (forall_updateLast (each.entities .class) keeps)

theorem updateOpen {name separator : String} {g : EntityToken → EntityToken}
    (keeps : ∀ e, e.EachSpan P → (g e).EachSpan P) :
    (t.updateOpen name separator g).EachSpan P := by
  unfold TokenTree.updateOpen
  split
  · next classes found =>
    exact each.changeClasses (forall_updateFirst? (each.entities .class) keeps found)
  · split
    · next interfaces found =>
      have changed := forall_updateFirst? (each.entities .interface) keeps found
      refine { each with entities := fun kind => ?_ }
      cases kind with
      | interface => exact changed
      | trait => exact each.entities .trait
      | «class» => exact each.entities .class
    · exact each

theorem foldl {α : Type} {g : TokenTree → α → TokenTree} {as : List α}
    (step : ∀ {t : TokenTree}, t.EachSpan P → ∀ a ∈ as, (g t a).EachSpan P) :
    (as.foldl g t).EachSpan P := by
  induction as generalizing t with
  | nil => exact each
  | cons a as ih =>
    refine ih (step each a List.mem_cons_self) (fun each b member => ?_)
    exact step each b (List.mem_cons_of_mem a member)

end TokenTree.EachSpan

/-! ## Tokens without their places and visibility -/

def PropertyToken.bare (p : PropertyToken) : PropertyToken :=
  { p with span := none, visibility := .pub }

def MethodToken.bare (m : MethodToken) : MethodToken :=
  { m with
    span := none, visibility := .pub
    arguments := m.arguments.map (fun a => { a with span := none }) }

def EntityToken.bare (e : EntityToken) : EntityToken :=
  { e with
    span := none, visibility := .pub
    properties := e.properties.map (·.bare)
    methods := e.methods.map (·.bare) }

/-- The outline without the places and the visibility of modules and routines. -/
def TokenTree.bare (t : TokenTree) : TokenTree :=
  { t with
    classes := t.classes.map (·.bare)
    functions := t.functions.map (·.bare) }

section MapSpan

variable (f : Span → Span)

theorem PropertyToken.bare_mapSpan (p : PropertyToken) : (p.mapSpan f).bare = p.bare := rfl

theorem MethodToken.bare_mapSpan (m : MethodToken) : (m.mapSpan f).bare = m.bare := by
  rw [MethodToken.mapSpan, MethodToken.bare, List.map_map]
  rfl

/-- The entity has properties and methods only. -/
def EntityToken.IsPlain (e : EntityToken) : Prop :=
  e.constants = [] ∧ e.accessors = [] ∧ e.traits = []

theorem EntityToken.bare_mapSpan {e : EntityToken} (plain : e.IsPlain) :
    (e.mapSpan f).bare = e.bare := by
  obtain ⟨noConstants, noAccessors, noTraits⟩ := plain
  obtain ⟨name, span, visibility, constants, properties, accessors, methods, traits, ab, ro⟩ := e
  dsimp only at noConstants noAccessors noTraits
  subst noConstants noAccessors noTraits
  have properties_same : (properties.map (·.mapSpan f)).map PropertyToken.bare =
      properties.map PropertyToken.bare := by
    rw [List.map_map]
    exact List.map_congr_left (fun p _ => p.bare_mapSpan f)
  have methods_same : (methods.map (·.mapSpan f)).map MethodToken.bare =
      methods.map MethodToken.bare := by
    rw [List.map_map]
    exact List.map_congr_left (fun m _ => m.bare_mapSpan f)
  rw [EntityToken.mapSpan, EntityToken.bare, EntityToken.bare, properties_same, methods_same]
  rfl

theorem bare_mapEntitySpans {es : List EntityToken} (plain : ∀ e ∈ es, e.IsPlain) :
    (mapEntitySpans f es).map EntityToken.bare = es.map EntityToken.bare := by
  induction es with
  | nil => rfl
  | cons e es ih =>
    obtain ⟨first, later⟩ := List.forall_mem_cons.1 plain
    rw [mapEntitySpans, List.map_cons, ih later, e.bare_mapSpan f first, List.map_cons]

theorem TokenTree.bare_mapSpan {classes : List EntityToken} (functions : List MethodToken)
    (plain : ∀ e ∈ classes, e.IsPlain) :
    (TokenTree.mapSpan f { classes, functions }).bare =
      TokenTree.bare { classes, functions } := by
  have functions_same : (functions.map (·.mapSpan f)).map MethodToken.bare =
      functions.map MethodToken.bare := by
    rw [List.map_map]
    exact List.map_congr_left (fun m _ => m.bare_mapSpan f)
  rw [TokenTree.bare, TokenTree.bare, ← bare_mapEntitySpans f plain, ← functions_same]
  rfl

end MapSpan

end CodeOutline
