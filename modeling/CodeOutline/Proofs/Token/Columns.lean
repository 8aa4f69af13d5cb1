import CodeOutline.Proofs.Related
import CodeOutline.Proofs.Text.Points

/-!
Trees that differ in their places only. A change of places is made at each place of a tree once,
and the step to character columns is such a change.
-/

set_option autoImplicit false

namespace CodeOutline

/-! The relation of two trees that have the same tokens, when their places are related one by one.
It goes through the tokens itself and knows nothing of the change. -/

section Agreement

variable (R : Span → Span → Prop)

structure VarToken.Agrees (v w : VarToken) : Prop where
  span : Option.Rel R v.span w.span
  rest : w = { v with span := w.span }

structure PropertyToken.Agrees (p q : PropertyToken) : Prop where
  span : Option.Rel R p.span q.span
  rest : q = { p with span := q.span }

structure AccessorToken.Agrees (a b : AccessorToken) : Prop where
  span : Option.Rel R a.span b.span
  rest : b = { a with span := b.span }

structure MethodToken.Agrees (m n : MethodToken) : Prop where
  span : Option.Rel R m.span n.span
  arguments : List.Forall₂ (VarToken.Agrees R) m.arguments n.arguments
  rest : n = { m with span := n.span, arguments := n.arguments }

structure ImportToken.Agrees (i j : ImportToken) : Prop where
  span : Option.Rel R i.span j.span
  rest : j = { i with span := j.span }

end Agreement

/-- The entities composed into an entity agree as well, at any depth. -/
inductive EntityToken.Agrees (R : Span → Span → Prop) : EntityToken → EntityToken → Prop
  | mk {e f : EntityToken} (span : Option.Rel R e.span f.span)
      (constants : List.Forall₂ (VarToken.Agrees R) e.constants f.constants)
      (properties : List.Forall₂ (PropertyToken.Agrees R) e.properties f.properties)
      (accessors : List.Forall₂ (AccessorToken.Agrees R) e.accessors f.accessors)
      (methods : List.Forall₂ (MethodToken.Agrees R) e.methods f.methods)
      (traits : List.Forall₂ (EntityToken.Agrees R) e.traits f.traits)
      (rest : f = { e with
        span := f.span, constants := f.constants, properties := f.properties,
        accessors := f.accessors, methods := f.methods, traits := f.traits }) :
      EntityToken.Agrees R e f

/-- The values inside a value agree as well, at any depth. -/
inductive DataToken.Agrees (R : Span → Span → Prop) : DataToken → DataToken → Prop
  | mk {d e : DataToken} (span : Option.Rel R d.span e.span)
      (children : List.Forall₂ (DataToken.Agrees R) d.children e.children)
      (rest : e = { d with span := e.span, children := e.children }) : DataToken.Agrees R d e

/-- The same selectors in the same order with declarations that agree. -/
def SelectorMap.Agrees (R : Span → Span → Prop) (m n : SelectorMap) : Prop :=
  List.Forall₂ (fun a b => a.1 = b.1 ∧ List.Forall₂ (VarToken.Agrees R) a.2 b.2)
    m.entries n.entries

structure TokenTree.Agrees (R : Span → Span → Prop) (t u : TokenTree) : Prop where
  strict : u.strict = t.strict
  space : u.space = t.space
  imports : List.Forall₂ (ImportToken.Agrees R) t.imports u.imports
  interfaces : List.Forall₂ (EntityToken.Agrees R) t.interfaces u.interfaces
  traits : List.Forall₂ (EntityToken.Agrees R) t.traits u.traits
  classes : List.Forall₂ (EntityToken.Agrees R) t.classes u.classes
  functions : List.Forall₂ (MethodToken.Agrees R) t.functions u.functions
  vars : List.Forall₂ (VarToken.Agrees R) t.vars u.vars
  rules : List.Forall₂ (VarToken.Agrees R) t.rules u.rules
  items : List.Forall₂ (VarToken.Agrees R) t.items u.items
  nodes : SelectorMap.Agrees R t.nodes u.nodes
  media : List.Forall₂ (fun a b => a.1 = b.1 ∧ SelectorMap.Agrees R a.2 b.2)
    t.media.entries u.media.entries
  data : Option.Rel (DataToken.Agrees R) t.data u.data

/-! What a change of all places makes of a tree. -/

section Change

variable (f : Span → Span)

private theorem rel_map_span (span : Option Span) :
    Option.Rel (fun s s' => s' = f s) span (span.map f) :=
  rel_map (R := fun s s' => s' = f s) (fun _ => rfl) span

theorem VarToken.agrees_mapSpan (v : VarToken) : v.Agrees (fun s s' => s' = f s) (v.mapSpan f) :=
  ⟨rel_map_span f v.span, rfl⟩

theorem MethodToken.agrees_mapSpan (m : MethodToken) :
    m.Agrees (fun s s' => s' = f s) (m.mapSpan f) :=
  ⟨rel_map_span f m.span, forall₂_self_map (VarToken.agrees_mapSpan f) m.arguments, rfl⟩

mutual

theorem EntityToken.agrees_mapSpan :
    (e : EntityToken) → e.Agrees (fun s s' => s' = f s) (e.mapSpan f)
  | ⟨_, span, _, constants, properties, accessors, methods, traits, _, _⟩ => .mk
    (rel_map_span f span) (forall₂_self_map (VarToken.agrees_mapSpan f) constants)
    (forall₂_self_map (fun p => ⟨rel_map_span f p.span, rfl⟩) properties)
    (forall₂_self_map (fun a => ⟨rel_map_span f a.span, rfl⟩) accessors)
    (forall₂_self_map (MethodToken.agrees_mapSpan f) methods) (agrees_mapEntitySpans traits) rfl

theorem agrees_mapEntitySpans : (es : List EntityToken) →
    List.Forall₂ (EntityToken.Agrees (fun s s' => s' = f s)) es (mapEntitySpans f es)
  | [] => .nil
  | e :: es => .cons e.agrees_mapSpan (agrees_mapEntitySpans es)

end

mutual

theorem DataToken.agrees_mapSpan :
    (d : DataToken) → d.Agrees (fun s s' => s' = f s) (d.mapSpan f)
  | ⟨_, span, _, _, children⟩ => .mk (rel_map_span f span) (agrees_mapDataSpans children) rfl

theorem agrees_mapDataSpans : (ds : List DataToken) →
    List.Forall₂ (DataToken.Agrees (fun s s' => s' = f s)) ds (mapDataSpans f ds)
  | [] => .nil
  | d :: ds => .cons d.agrees_mapSpan (agrees_mapDataSpans ds)

end

theorem SelectorMap.agrees_mapSpan (m : SelectorMap) :
    SelectorMap.Agrees (fun s s' => s' = f s) m (m.mapSpan f) :=
  forall₂_self_map (fun entry => ⟨rfl, forall₂_self_map (VarToken.agrees_mapSpan f) entry.2⟩)
    m.entries

theorem TokenTree.agrees_mapSpan (t : TokenTree) :
    t.Agrees (fun s s' => s' = f s) (t.mapSpan f) where
  strict := rfl
  space := rfl
  imports := forall₂_self_map (fun i => ⟨rel_map_span f i.span, rfl⟩) t.imports
  interfaces := agrees_mapEntitySpans f t.interfaces
  traits := agrees_mapEntitySpans f t.traits
  classes := agrees_mapEntitySpans f t.classes
  functions := forall₂_self_map (MethodToken.agrees_mapSpan f) t.functions
  vars := forall₂_self_map (VarToken.agrees_mapSpan f) t.vars
  rules := forall₂_self_map (VarToken.agrees_mapSpan f) t.rules
  items := forall₂_self_map (VarToken.agrees_mapSpan f) t.items
  nodes := SelectorMap.agrees_mapSpan f t.nodes
  media := forall₂_self_map (fun entry => ⟨rfl, SelectorMap.agrees_mapSpan f entry.2⟩)
    t.media.entries
  data := rel_map (DataToken.agrees_mapSpan f) t.data

private theorem flatMap_map_spans {α : Type} {g : α → α} {spans : α → List Span}
    (each : ∀ a, spans (g a) = (spans a).map f) (as : List α) :
    (as.map g).flatMap spans = (as.flatMap spans).map f := by
  rw [List.flatMap_map, List.map_flatMap]
  exact List.flatMap_congr (fun a _ => each a)

private theorem toList_map_span (span : Option Span) :
    (span.map f).toList = span.toList.map f := by
  cases span <;> rfl

theorem MethodToken.spans_mapSpan (m : MethodToken) : (m.mapSpan f).spans = m.spans.map f := by
  rw [MethodToken.spans, MethodToken.mapSpan, toList_map_span,
    flatMap_map_spans f (fun a => toList_map_span f a.span), MethodToken.spans, List.map_append]

mutual

theorem EntityToken.spans_mapSpan :
    (e : EntityToken) → (e.mapSpan f).spans = e.spans.map f
  | ⟨_, span, _, constants, properties, accessors, methods, traits, _, _⟩ => by
    rw [EntityToken.mapSpan, EntityToken.spans, EntityToken.spans, toList_map_span,
      flatMap_map_spans f (fun c => toList_map_span f c.span),
      flatMap_map_spans f (fun p => toList_map_span f p.span),
      flatMap_map_spans f (fun a => toList_map_span f a.span),
      flatMap_map_spans f (MethodToken.spans_mapSpan f), entitySpans_mapEntitySpans traits]
    simp only [List.map_append]

theorem entitySpans_mapEntitySpans :
    (es : List EntityToken) → entitySpans (mapEntitySpans f es) = (entitySpans es).map f
  | [] => rfl
  | e :: es => by
    rw [mapEntitySpans, entitySpans, e.spans_mapSpan, entitySpans_mapEntitySpans es, entitySpans,
      List.map_append]

end

mutual

theorem DataToken.spans_mapSpan : (d : DataToken) → (d.mapSpan f).spans = d.spans.map f
  | ⟨_, span, _, _, children⟩ => by
    rw [DataToken.mapSpan, DataToken.spans, DataToken.spans, toList_map_span,
      dataSpans_mapDataSpans children, List.map_append]

theorem dataSpans_mapDataSpans :
    (ds : List DataToken) → dataSpans (mapDataSpans f ds) = (dataSpans ds).map f
  | [] => rfl
  | d :: ds => by
    rw [mapDataSpans, dataSpans, d.spans_mapSpan, dataSpans_mapDataSpans ds, dataSpans,
      List.map_append]

end

theorem SelectorMap.spans_mapSpan (m : SelectorMap) : (m.mapSpan f).spans = m.spans.map f :=
  flatMap_map_spans f (fun entry =>
    flatMap_map_spans f (fun d => toList_map_span f d.span) entry.2) m.entries

theorem TokenTree.spans_mapSpan (t : TokenTree) : (t.mapSpan f).spans = t.spans.map f := by
  simp only [TokenTree.spans, List.map_append]
  dsimp only [TokenTree.mapSpan]
  rw [flatMap_map_spans f (fun i => toList_map_span f i.span), entitySpans_mapEntitySpans,
    entitySpans_mapEntitySpans, entitySpans_mapEntitySpans,
    flatMap_map_spans f (MethodToken.spans_mapSpan f),
    flatMap_map_spans f (fun v => toList_map_span f v.span),
    flatMap_map_spans f (fun v => toList_map_span f v.span),
    flatMap_map_spans f (fun v => toList_map_span f v.span), SelectorMap.spans_mapSpan]
  refine congrArg₂ (· ++ ·) (congrArg₂ (· ++ ·) rfl ?media) ?data
  case media =>
    exact flatMap_map_spans f (fun entry => SelectorMap.spans_mapSpan f entry.2) t.media.entries
  case data =>
    cases t.data with
    | none => rfl
    | some root => exact root.spans_mapSpan f

end Change

/-- The step to character columns changes each place of a tree once and nothing else, and of a
place its columns only. A point behind the last line stays. Any other point gets the number of
characters of its line that start before its byte, which is the number of those in front where the
byte is at a boundary; and no start comes behind an end that it was not behind. -/
theorem useCharColumns_turns (text : String) :
    (∀ t : TokenTree,
      t.Agrees (fun s s' => s' = s.map (Text.turned text)) (t.useCharColumns text) ∧
        (t.useCharColumns text).spans = t.spans.map (Span.map (Text.turned text))) ∧
      (∀ p, (Text.turned text p).line = p.line) ∧
      (∀ p : Point, text.toList.count '\n' < p.line → Text.turned text p = p) ∧
      (∀ n, n ≤ text.toList.count '\n' → ∃ line, Text.IsLine text.toList n line) ∧
      (∀ (p : Point) (line : List Char), Text.IsLine text.toList p.line line →
        (Text.turned text p).column =
          (List.range line.length).countP (fun i => Text.byteLength (line.take i) < p.column)) ∧
      (∀ n front back, Text.IsLine text.toList n (front ++ back) →
        Text.turned text ⟨n, Text.byteLength front⟩ = ⟨n, front.length⟩) ∧
      ∀ s : Span, s.start.AtMost s.stop →
        (s.map (Text.turned text)).start.AtMost (s.map (Text.turned text)).stop := by
  refine ⟨fun t => ⟨t.agrees_mapSpan _, t.spans_mapSpan _⟩, Text.turned_line text,
    fun _ => Text.turned_beyond, fun n => Text.exists_isLine, fun p line here => ?_,
    fun n front back here => ?_, fun _ => Text.turned_atMost⟩
  · rw [Text.turned_of_isLine here, Text.charsBefore_eq_countP]
  · rw [Text.turned_of_isLine (p := ⟨n, Text.byteLength front⟩) here, Text.charsBefore_byteLength]

end CodeOutline
