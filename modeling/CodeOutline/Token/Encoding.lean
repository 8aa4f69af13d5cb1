import CodeOutline.Json.Value
import CodeOutline.Token.Basic

/-!
The written form of tokens. Absent texts, false flags and empty lists are left out, a
visibility, a direction and a data kind are always written, and the two ordered maps are
lists of pairs, or objects where a reader keeps their order. Reading gives a left-out field
its default and refuses a wrong shape; it is told in which form ordered maps are written.
-/

set_option autoImplicit false

namespace CodeOutline

open Json (Value)

namespace Encoding

def text (key : String) (s : Option String) : Option (String × Value) :=
  s.map (fun s => (key, .str s))

def flag (key : String) (b : Bool) : Option (String × Value) :=
  if b then some (key, .bool true) else none

def list (key : String) (items : List Value) : Option (String × Value) :=
  if items.isEmpty then none else some (key, .arr items)

def point (p : Point) : Value := .obj [("line", .num p.line), ("column", .num p.column)]

def span (s : Span) : Value := .obj [("start", point s.start), ("end", point s.stop)]

def place (s : Option Span) : Option (String × Value) :=
  s.map (fun s => ("position", span s))

def visibility (v : Visibility) : Option (String × Value) :=
  some ("visibility", .str v.word)

def varFields (v : VarToken) : List (Option (String × Value)) :=
  [some ("name", .str v.name), place v.span, text "type" v.type, text "value" v.value,
    visibility v.visibility, flag "static" v.isStatic]

def varToken (v : VarToken) : Value := .ofFields (varFields v)

def propertyFields (p : PropertyToken) : List (Option (String × Value)) :=
  varFields p.toVarToken ++ [flag "readonly" p.isReadonly]

def property (p : PropertyToken) : Value := .ofFields (propertyFields p)

def accessor (a : AccessorToken) : Value :=
  .ofFields (propertyFields a.toPropertyToken ++
    [flag "abstract" a.isAbstract, some ("direction", .str a.direction.word)])

def method (m : MethodToken) : Value :=
  .ofFields (varFields m.toVarToken ++
    [list "arguments" (m.arguments.map varToken), flag "abstract" m.isAbstract,
      flag "readonly" m.isReadonly])

def importToken (i : ImportToken) : Value :=
  .ofFields [some ("name", .str i.name), place i.span, text "alias" i.localName]

mutual

def entity : EntityToken → Value
  | ⟨name, at', vis, constants, properties, accessors, methods, traits, isAbstract, isReadonly⟩ =>
    .ofFields [some ("name", .str name), place at', visibility vis,
      list "constants" (constants.map varToken), list "properties" (properties.map property),
      list "accessors" (accessors.map accessor), list "methods" (methods.map method),
      list "traits" (entities traits), flag "abstract" isAbstract, flag "readonly" isReadonly]

def entities : List EntityToken → List Value
  | [] => []
  | e :: es => entity e :: entities es

end

mutual

def data : DataToken → Value
  | ⟨name, at', kind, value, children⟩ =>
    .ofFields [some ("name", .str name), place at', some ("kind", .str kind.word),
      text "value" value, list "children" (dataList children)]

def dataList : List DataToken → List Value
  | [] => []
  | d :: ds => data d :: dataList ds

end

/-- How ordered maps are written. -/
inductive MapForm
  | pairs | members
deriving DecidableEq, Repr

def orderedMap (form : MapForm) (m : OrderedMap Value) : Value :=
  match form with
  | .pairs => .arr (m.entries.map (fun (key, value) => .arr [.str key, value]))
  | .members => .obj m.entries

def selectors (form : MapForm) (m : SelectorMap) : Value :=
  orderedMap form (m.map (fun vs => .arr (vs.map varToken)))

def mapField (form : MapForm) (key : String) (m : OrderedMap Value) : Option (String × Value) :=
  if m.isEmpty then none else some (key, orderedMap form m)

def treeFields (form : MapForm) (t : TokenTree) : List (Option (String × Value)) :=
  [t.strict.map (fun b => ("strict", .bool b)), text "namespace" t.space,
    list "imports" (t.imports.map importToken), list "interfaces" (entities t.interfaces),
    list "traits" (entities t.traits), list "classes" (entities t.classes),
    list "functions" (t.functions.map method), list "variables" (t.vars.map varToken),
    list "rules" (t.rules.map varToken), list "items" (t.items.map varToken),
    mapField form "nodes" (t.nodes.map (fun vs => .arr (vs.map varToken))),
    mapField form "media" (t.media.map (selectors form)),
    t.data.map (fun d => ("data", data d))]

def treeIn (form : MapForm) (t : TokenTree) : Value := .ofFields (treeFields form t)

def tree (t : TokenTree) : Value := treeIn .pairs t

end Encoding

namespace Decoding

def given (v : Value) (key : String) : Option Value :=
  match v.field? key with
  | some .null => none
  | found => found

def fieldOr {α : Type} (v : Value) (key : String) (default : α)
    (read : Value → Option α) : Option α :=
  match given v key with
  | none => some default
  | some x => read x

def optional {α : Type} (v : Value) (key : String) (read : Value → Option α) :
    Option (Option α) :=
  fieldOr v key none (fun x => (read x).map some)

def listOf {α : Type} (v : Value) (key : String) (read : Value → Option α) :
    Option (List α) :=
  fieldOr v key [] (fun x => x.items?.bind (·.mapM read))

def point (v : Value) : Option Point := do
  some ⟨← (← v.field? "line").num?, ← (← v.field? "column").num?⟩

def span (v : Value) : Option Span := do
  some ⟨← point (← v.field? "start"), ← point (← v.field? "end")⟩

def visibility (v : Value) : Option Visibility :=
  fieldOr v "visibility" .pub (fun x => x.str?.bind Visibility.ofWord?)

def flag (v : Value) (key : String) : Option Bool := fieldOr v key false Value.bool?

def varToken (v : Value) : Option VarToken := do
  some {
    name := ← (← v.field? "name").str?
    span := ← optional v "position" span
    type := ← optional v "type" Value.str?
    value := ← optional v "value" Value.str?
    visibility := ← visibility v
    isStatic := ← flag v "static" }

def property (v : Value) : Option PropertyToken := do
  some { toVarToken := ← varToken v, isReadonly := ← flag v "readonly" }

def direction (v : Value) : Option Direction :=
  match v with
  | .str "get" => some .get
  | .str "set" => some .set
  | _ => none

def accessor (v : Value) : Option AccessorToken := do
  some {
    toPropertyToken := ← property v
    isAbstract := ← flag v "abstract"
    direction := ← direction (← v.field? "direction") }

def method (v : Value) : Option MethodToken := do
  some {
    toVarToken := ← varToken v
    arguments := ← listOf v "arguments" varToken
    isAbstract := ← flag v "abstract"
    isReadonly := ← flag v "readonly" }

def importToken (v : Value) : Option ImportToken := do
  some {
    name := ← (← v.field? "name").str?
    span := ← optional v "position" span
    localName := ← optional v "alias" Value.str? }

def entityTo : Nat → Value → Option EntityToken
  | 0, _ => none
  | depth + 1, v => do
    some {
      name := ← (← v.field? "name").str?
      span := ← optional v "position" span
      visibility := ← visibility v
      constants := ← listOf v "constants" varToken
      properties := ← listOf v "properties" property
      accessors := ← listOf v "accessors" accessor
      methods := ← listOf v "methods" method
      traits := ← listOf v "traits" (entityTo depth)
      isAbstract := ← flag v "abstract"
      isReadonly := ← flag v "readonly" }

def dataKind (v : Value) : Option DataKind :=
  match v with
  | .str "object" => some .object
  | .str "array" => some .array
  | .str "value" => some .value
  | _ => none

def dataTo : Nat → Value → Option DataToken
  | 0, _ => none
  | depth + 1, v => do
    some {
      name := ← (← v.field? "name").str?
      span := ← optional v "position" span
      kind := ← fieldOr v "kind" .value dataKind
      value := ← optional v "value" Value.str?
      children := ← listOf v "children" (dataTo depth) }

end Decoding

namespace Json.Value

mutual

def depth : Value → Nat
  | .arr items => depthItems items + 1
  | .obj members => depthMembers members + 1
  | _ => 1

def depthItems : List Value → Nat
  | [] => 0
  | v :: vs => max v.depth (depthItems vs)

def depthMembers : List (String × Value) → Nat
  | [] => 0
  | (_, v) :: ms => max v.depth (depthMembers ms)

end

end Json.Value

namespace Decoding

open Encoding (MapForm)

def entity (v : Value) : Option EntityToken := entityTo v.depth v

def data (v : Value) : Option DataToken := dataTo v.depth v

def pair : Value → Option (String × Value)
  | .arr [.str key, v] => some (key, v)
  | _ => none

/-- The entries of an ordered map in one of its two forms. -/
def entries (form : MapForm) (v : Value) : Option (List (String × Value)) :=
  match form, v with
  | .pairs, .arr items => items.mapM pair
  | .members, .obj members => some members
  | _, _ => none

def orderedMap {α : Type} (form : MapForm) (read : Value → Option α) (v : Value) :
    Option (OrderedMap α) := do
  some (.ofPairs (← (← entries form v).mapM (fun (key, x) => (read x).map (fun a => (key, a)))))

def selectors (form : MapForm) (v : Value) : Option SelectorMap :=
  orderedMap form (fun x => x.items?.bind (·.mapM varToken)) v

def treeIn (form : MapForm) (v : Value) : Option TokenTree := do
  some {
    strict := ← optional v "strict" Value.bool?
    space := ← optional v "namespace" Value.str?
    imports := ← listOf v "imports" importToken
    interfaces := ← listOf v "interfaces" entity
    traits := ← listOf v "traits" entity
    classes := ← listOf v "classes" entity
    functions := ← listOf v "functions" method
    vars := ← listOf v "variables" varToken
    rules := ← listOf v "rules" varToken
    items := ← listOf v "items" varToken
    nodes := ← fieldOr v "nodes" .empty (selectors form)
    media := ← fieldOr v "media" .empty (orderedMap form (selectors form))
    data := ← optional v "data" data }

def tree (v : Value) : Option TokenTree := treeIn .pairs v

end Decoding

end CodeOutline
