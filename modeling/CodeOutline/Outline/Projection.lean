import CodeOutline.Outline.Label
import CodeOutline.Outline.Order

/-!
The outline of a token tree: root nodes in a fixed order, and for each node with a target
the children that the target names. At most one root node starts open.
-/

set_option autoImplicit false

namespace CodeOutline

namespace Outline

inductive NodeKind
  | strict | section | interface | trait | «class» | media | selector | importOf | var
  | constant | property | accessor | usedTrait | method | function | rule | item | declaration
  | object | array | value
deriving DecidableEq, Repr

namespace NodeKind

def word : NodeKind → String
  | .strict => "strict"
  | .section => "section"
  | .interface => "interface"
  | .trait => "trait"
  | .class => "class"
  | .media => "media"
  | .selector => "selector"
  | .importOf => "import"
  | .var => "variable"
  | .constant => "constant"
  | .property => "property"
  | .accessor => "accessor"
  | .usedTrait => "used_trait"
  | .method => "method"
  | .function => "function"
  | .rule => "rule"
  | .item => "item"
  | .declaration => "declaration"
  | .object => "object"
  | .array => "array"
  | .value => "value"

def ofEntity : EntityKind → NodeKind
  | .interface => .interface
  | .trait => .trait
  | .class => .class

def ofData : DataKind → NodeKind
  | .object => .object
  | .array => .array
  | .value => .value

end NodeKind

/-- Whether a node shows its children at first; a leaf has none to show. -/
inductive Collapse
  | none | collapsed | expanded
deriving DecidableEq, Repr

def Collapse.word : Collapse → String
  | .none => "none"
  | .collapsed => "collapsed"
  | .expanded => "expanded"

/-- The flat lists that have a root node of their own. -/
inductive Section
  | imports | vars | functions | rules | items
deriving DecidableEq, Repr

namespace Section

def all : List Section := [.imports, .vars, .functions, .rules, .items]

def title : Section → String
  | .imports => "Imports"
  | .vars => "Variables"
  | .functions => "Functions"
  | .rules => "Rules"
  | .items => "Items"

def mayExpand : Section → Bool
  | .imports | .vars => false
  | _ => true

def isEmpty (t : TokenTree) : Section → Bool
  | .imports => t.imports.isEmpty
  | .vars => t.vars.isEmpty
  | .functions => t.functions.isEmpty
  | .rules => t.rules.isEmpty
  | .items => t.items.isEmpty

end Section

/-- Where the children of a node come from. -/
inductive Target
  | section (s : Section)
  | entity (kind : EntityKind) (index : Nat)
  | media (condition : String)
  | selector (media : Option String) (selector : String)
  | data (path : List Nat)
deriving DecidableEq, Repr

/-- One line of the outline. -/
structure Node where
  label : String
  kind : NodeKind
  collapse : Collapse := .none
  span : Option Span := none
  visibility : Visibility := .pub
  isStatic : Bool := false
  target : Option Target := none
deriving DecidableEq, Repr

def leaf (label : String) (kind : NodeKind) (span : Option Span) : Node :=
  { label, kind, span }

def memberLeaf (label : String) (kind : NodeKind) (v : VarToken) : Node :=
  { label, kind, span := v.span, visibility := v.visibility, isStatic := v.isStatic }

def branch (label : String) (kind : NodeKind) (span : Option Span) (target : Target) :
    Node :=
  { label, kind, span, collapse := .collapsed, target := some target }

def offerOpen (nodes : List (Node × Bool)) : List Node :=
  match nodes with
  | [] => []
  | (node, false) :: rest => node :: offerOpen rest
  | (node, true) :: rest => { node with collapse := .expanded } :: rest.map (·.1)

def selectorNode (media : Option String) (entry : String × List VarToken) : Node :=
  branch entry.1 .selector (entry.2.head?.bind (·.span)) (.selector media entry.1)

def dataNode (parent : DataKind) (path : List Nat) (child : DataToken) (index : Nat) :
    Node :=
  let label := Label.data parent child
  if child.kind.isContainer then
    branch label (.ofData child.kind) child.span (.data (path ++ [index]))
  else leaf label .value child.span

def dataNodes (parent : DataToken) (path : List Nat) : List Node :=
  parent.children.mapIdx (fun index child => dataNode parent.kind path child index)

def entityNodes (m : Markers) (t : TokenTree) (kind : EntityKind) : List Node :=
  (t.entitiesOf kind).mapIdx (fun index e =>
    { branch (Label.entity m kind e) (.ofEntity kind) e.span (.entity kind index) with
      visibility := e.visibility })

def dataRoots (t : TokenTree) : List (Node × Bool) :=
  match t.data with
  | none => []
  | some root =>
    if root.kind.isContainer then (dataNodes root []).map (fun n => (n, n.target.isSome))
    else [(leaf (Label.data .value root) .value root.span, false)]

def rootOffers (m : Markers) (t : TokenTree) : List (Node × Bool) :=
  (if t.strict = some true then [(leaf "Strict: Yes" .strict none, false)] else []) ++
  (Section.all.filter (fun s => !s.isEmpty t)).map
    (fun s => (branch s.title .section none (.section s), s.mayExpand)) ++
  (EntityKind.all.flatMap (entityNodes m t)).map (·, true) ++
  t.media.keys.map (fun condition =>
    (branch ("@media " ++ condition) .media none (.media condition), true)) ++
  t.nodes.entries.map (fun entry => (selectorNode none entry, true)) ++
  dataRoots t

/-- The root nodes: the strict sign, the sections, interfaces, traits, classes, media
blocks, selectors and data values. The first node that may start open does. -/
def roots (m : Markers) (t : TokenTree) : List Node := offerOpen (rootOffers m t)

def varLeaves (kind : NodeKind) (vs : List VarToken) : List Node :=
  (Member.sort vs).map (fun v => memberLeaf (Label.typed v) kind v)

def sectionNodes (m : Markers) (t : TokenTree) : Section → List Node
  | .imports =>
    (Member.sort t.imports).map (fun i => leaf (Label.importLabel i) .importOf i.span)
  | .vars => varLeaves .var t.vars
  | .rules => varLeaves .rule t.rules
  | .items => varLeaves .item t.items
  | .functions =>
    (Member.sort t.functions).map (fun f => memberLeaf (Label.method m f) .function f.toVarToken)

def memberNodes (m : Markers) (kind : EntityKind) (e : EntityToken) : List Node :=
  varLeaves .constant e.constants ++
  (if kind = .class then
    (Member.sort e.accessors).map (fun a => memberLeaf (Label.accessor a) .accessor a.toVarToken)
  else []) ++
  (Member.sort e.properties).map
    (fun p => memberLeaf (Label.property m p) .property p.toVarToken) ++
  (if kind = .interface then []
  else (Member.sort e.traits).map (fun u => leaf u.name .usedTrait u.span)) ++
  (Member.sort e.methods).map (fun f => memberLeaf (Label.method m f) .method f.toVarToken)

def declarationNodes (map : SelectorMap) (selector : String) : List Node :=
  ((map.get? selector).getD []).map (fun d => leaf (Label.declaration d) .declaration d.span)

/-- The children that a target names; none when the tree has no such part. -/
def childrenOf (m : Markers) (t : TokenTree) : Target → List Node
  | .section s => sectionNodes m t s
  | .entity kind index =>
    match (t.entitiesOf kind)[index]? with
    | some e => memberNodes m kind e
    | none => []
  | .media condition =>
    ((t.media.get? condition).getD .empty).entries.map (selectorNode (some condition))
  | .selector none selector => declarationNodes t.nodes selector
  | .selector (some condition) selector =>
    declarationNodes ((t.media.get? condition).getD .empty) selector
  | .data path =>
    match t.data.bind (·.descendant? path) with
    | some parent => dataNodes parent path
    | none => []

/-- The children of a node; a node without a target is a leaf. -/
def children (m : Markers) (t : TokenTree) (node : Node) : List Node :=
  match node.target with
  | some target => childrenOf m t target
  | none => []

/-- A node with all that is below it. -/
inductive Branch
  | mk (node : Node) (below : List Branch)

def expandTo (m : Markers) (t : TokenTree) : Nat → Node → Branch
  | 0, node => .mk node []
  | depth + 1, node => .mk node ((children m t node).map (expandTo m t depth))

end Outline

mutual

def DataToken.height : DataToken → Nat
  | ⟨_, _, _, _, children⟩ => heights children + 1

def heights : List DataToken → Nat
  | [] => 0
  | d :: ds => max d.height (heights ds)

end

namespace Outline

/-- So many levels below a root node hold everything: a media block has two, a data
container as many as its values are nested. -/
def depthBound (t : TokenTree) : Nat :=
  match t.data with
  | some root => root.height + 2
  | none => 2

/-- The whole outline. -/
def expand (m : Markers) (t : TokenTree) : List Branch :=
  (roots m t).map (expandTo m t (depthBound t))

end Outline

end CodeOutline
