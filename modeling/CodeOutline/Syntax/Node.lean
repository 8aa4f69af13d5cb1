import CodeOutline.Token.Basic

/-!
Syntax trees of source texts. Each node knows its kind, the role it plays in its parent,
where it starts and stops, and the source from its start on.
-/

set_option autoImplicit false

namespace CodeOutline.Syntax

/-- A place in a text: characters before it, its line, and its column in UTF-8 bytes. -/
structure Place where
  offset : Nat
  line : Nat
  column : Nat
deriving DecidableEq, Repr, Inhabited

namespace Place

def origin : Place := ⟨0, 0, 0⟩

/-- The place behind one more character. -/
def next (p : Place) (c : Char) : Place :=
  if c = '\n' then ⟨p.offset + 1, p.line + 1, 0⟩
  else ⟨p.offset + 1, p.line, p.column + c.utf8Size⟩

def point (p : Place) : Point := ⟨p.line, p.column⟩

end Place

/-- A node of a syntax tree. Punctuation and keywords are not named; comments are extra
nodes that may stand anywhere. -/
structure Node where
  kind : String
  isNamed : Bool := true
  isExtra : Bool := false
  field : Option String := none
  start : Place
  stop : Place
  /-- The source text from the node's start to the end of the document. -/
  tail : List Char
  children : List Node := []
deriving Repr, Inhabited

namespace Node

/-- The node's source text. -/
def chars (n : Node) : List Char := n.tail.take (n.stop.offset - n.start.offset)

/-- The node's source text. -/
def text (n : Node) : String := String.ofList n.chars

def span (n : Node) : Span := ⟨n.start.point, n.stop.point⟩

def named (n : Node) : List Node := n.children.filter (·.isNamed)

/-- The first child in that role. -/
def child? (n : Node) (field : String) : Option Node :=
  n.children.find? (fun c => c.field == some field)

def childrenIn (n : Node) (field : String) : List Node :=
  n.children.filter (fun c => c.field == some field)

def first? (n : Node) (kind : String) : Option Node := n.named.find? (·.kind == kind)

/-- The source text from the node's start to the start of a later node. -/
def textBefore (n later : Node) : String :=
  String.ofList (n.tail.take (later.start.offset - n.start.offset))

def childrenBefore (n later : Node) : List Node :=
  n.children.takeWhile (fun c => c.start.offset < later.start.offset)

theorem mem_children_of_mem_named {n c : Node} (h : c ∈ n.named) : c ∈ n.children :=
  (List.mem_filter.1 h).1

theorem mem_children_of_child? {n c : Node} {field : String} (h : n.child? field = some c) :
    c ∈ n.children := List.mem_of_find?_eq_some h

theorem sizeOf_of_mem_children {n c : Node} (h : c ∈ n.children) : sizeOf c < sizeOf n := by
  cases n
  have := List.sizeOf_lt_of_mem h
  simp only [Node.mk.sizeOf_spec]
  simp at this
  omega

theorem sizeOf_of_mem_named {n c : Node} (h : c ∈ n.named) : sizeOf c < sizeOf n :=
  sizeOf_of_mem_children (mem_children_of_mem_named h)

theorem sizeOf_of_child? {n c : Node} {field : String} (h : n.child? field = some c) :
    sizeOf c < sizeOf n := sizeOf_of_mem_children (mem_children_of_child? h)

end Node

end CodeOutline.Syntax
