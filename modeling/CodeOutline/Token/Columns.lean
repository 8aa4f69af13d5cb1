import CodeOutline.Text.Search
import CodeOutline.Token.Basic

/-!
Visiting the places of a tree, and the step from byte columns to character columns.
-/

set_option autoImplicit false

namespace CodeOutline

/-! Every place of a token changed by one function. -/

section Map

variable (f : Span → Span)

def VarToken.mapSpan (v : VarToken) : VarToken := { v with span := v.span.map f }

def PropertyToken.mapSpan (p : PropertyToken) : PropertyToken := { p with span := p.span.map f }

def AccessorToken.mapSpan (a : AccessorToken) : AccessorToken := { a with span := a.span.map f }

def MethodToken.mapSpan (m : MethodToken) : MethodToken :=
  { m with span := m.span.map f, arguments := m.arguments.map (·.mapSpan f) }

def ImportToken.mapSpan (i : ImportToken) : ImportToken := { i with span := i.span.map f }

mutual

def EntityToken.mapSpan : EntityToken → EntityToken
  | ⟨name, span, visibility, constants, properties, accessors, methods, traits, ab, ro⟩ =>
    ⟨name, span.map f, visibility, constants.map (·.mapSpan f), properties.map (·.mapSpan f),
      accessors.map (·.mapSpan f), methods.map (·.mapSpan f), mapEntitySpans traits, ab, ro⟩

def mapEntitySpans : List EntityToken → List EntityToken
  | [] => []
  | e :: es => e.mapSpan :: mapEntitySpans es

end

mutual

def DataToken.mapSpan : DataToken → DataToken
  | ⟨name, span, kind, value, children⟩ =>
    ⟨name, span.map f, kind, value, mapDataSpans children⟩

def mapDataSpans : List DataToken → List DataToken
  | [] => []
  | d :: ds => d.mapSpan :: mapDataSpans ds

end

def SelectorMap.mapSpan (m : SelectorMap) : SelectorMap :=
  m.map (List.map (VarToken.mapSpan f))

def TokenTree.mapSpan (t : TokenTree) : TokenTree :=
  { t with
    imports := t.imports.map (·.mapSpan f)
    interfaces := mapEntitySpans f t.interfaces
    traits := mapEntitySpans f t.traits
    classes := mapEntitySpans f t.classes
    functions := t.functions.map (·.mapSpan f)
    vars := t.vars.map (·.mapSpan f)
    rules := t.rules.map (·.mapSpan f)
    items := t.items.map (·.mapSpan f)
    nodes := SelectorMap.mapSpan f t.nodes
    media := t.media.map (SelectorMap.mapSpan f)
    data := t.data.map (·.mapSpan f) }

end Map

/-! The places of a tree, each once. -/

def MethodToken.spans (m : MethodToken) : List Span :=
  m.span.toList ++ m.arguments.flatMap (fun a => a.span.toList)

mutual

def EntityToken.spans : EntityToken → List Span
  | ⟨_, span, _, constants, properties, accessors, methods, traits, _, _⟩ =>
    span.toList ++ constants.flatMap (fun c => c.span.toList) ++
      properties.flatMap (fun p => p.span.toList) ++
      accessors.flatMap (fun a => a.span.toList) ++ methods.flatMap MethodToken.spans ++
      entitySpans traits

def entitySpans : List EntityToken → List Span
  | [] => []
  | e :: es => e.spans ++ entitySpans es

end

mutual

def DataToken.spans : DataToken → List Span
  | ⟨_, span, _, _, children⟩ => span.toList ++ dataSpans children

def dataSpans : List DataToken → List Span
  | [] => []
  | d :: ds => d.spans ++ dataSpans ds

end

def SelectorMap.spans (m : SelectorMap) : List Span :=
  m.entries.flatMap (fun (_, ds) => ds.flatMap (fun d => d.span.toList))

def TokenTree.spans (t : TokenTree) : List Span :=
  t.imports.flatMap (fun i => i.span.toList) ++ entitySpans t.interfaces ++
    entitySpans t.traits ++ entitySpans t.classes ++ t.functions.flatMap MethodToken.spans ++
    t.vars.flatMap (fun v => v.span.toList) ++ t.rules.flatMap (fun v => v.span.toList) ++
    t.items.flatMap (fun v => v.span.toList) ++ t.nodes.spans ++
    t.media.entries.flatMap (fun (_, m) => m.spans) ++
    (match t.data with
    | some root => root.spans
    | none => [])

namespace Text

def charsBefore : List Char → Nat → Nat
  | [], _ => 0
  | c :: cs, byte => if byte = 0 then 0 else charsBefore cs (byte - c.utf8Size) + 1

/-- A byte column of a line of the text turned into a character column; a point beyond the
last line is kept. -/
def charPoint (lines : List (List Char)) (p : Point) : Point :=
  match lines[p.line]? with
  | some line => { p with column := charsBefore line p.column }
  | none => p

end Text

/-- The tree with character columns in place of byte columns. -/
def TokenTree.useCharColumns (t : TokenTree) (text : String) : TokenTree :=
  let lines := Text.splitChars (· == '\n') text.toList
  t.mapSpan (Span.map (Text.charPoint lines))

end CodeOutline
