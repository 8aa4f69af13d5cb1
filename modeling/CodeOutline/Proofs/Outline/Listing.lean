import CodeOutline.Outline.Projection
import Mathlib.Data.List.Perm.Basic

/-!
What an outline has to list. An entry is a token together with the part it plays in a tree, or
one of the headings above tokens. Entries are found by walking through the tree itself; no
node and no target is needed for it.
-/

set_option autoImplicit false

namespace CodeOutline

mutual

/-- Values that are not containers hold nothing, at any depth. -/
def DataToken.isProper : DataToken → Bool
  | ⟨_, _, kind, _, children⟩ => (kind.isContainer || children.isEmpty) && areProper children

def areProper : List DataToken → Bool
  | [] => true
  | d :: ds => d.isProper && areProper ds

end

def TokenTree.hasProperData (t : TokenTree) : Bool := t.data.all (·.isProper)

namespace DataToken

private theorem areProper_eq_all (ds : List DataToken) : areProper ds = ds.all isProper := by
  induction ds with
  | nil => rfl
  | cons d ds ih => simp only [areProper, ih, List.all_cons]

theorem isProper_iff (d : DataToken) :
    d.isProper = true ↔
      (d.kind.isContainer = false → d.children = []) ∧ ∀ c ∈ d.children, c.isProper = true := by
  obtain ⟨name, span, kind, value, children⟩ := d
  simp only [isProper, areProper_eq_all, Bool.and_eq_true, Bool.or_eq_true, List.all_eq_true,
    List.isEmpty_iff]
  cases kind.isContainer <;> simp

theorem descendant?_append (d : DataToken) (path : List Nat) (i : Nat) :
    d.descendant? (path ++ [i]) = (d.descendant? path).bind (fun e => e.children[i]?) := by
  induction path generalizing d with
  | nil => cases found : d.children[i]? <;> simp [descendant?, found]
  | cons j path ih =>
    simp only [List.cons_append, descendant?]
    cases d.children[j]? with
    | none => rfl
    | some c => exact ih c

theorem isProper_of_descendant {d e : DataToken} {path : List Nat} (proper : d.isProper = true)
    (reached : d.descendant? path = some e) : e.isProper = true := by
  induction path generalizing d with
  | nil =>
    obtain rfl := Option.some.inj reached
    exact proper
  | cons i path ih =>
    simp only [descendant?] at reached
    cases child : d.children[i]? with
    | none => simp [child] at reached
    | some c =>
      rw [child] at reached
      exact ih ((isProper_iff d).1 proper |>.2 c (List.mem_of_getElem? child)) reached

theorem height_lt_of_mem {c d : DataToken} (member : c ∈ d.children) : c.height < d.height := by
  have bounded : ∀ ds : List DataToken, c ∈ ds → c.height ≤ heights ds := by
    intro ds
    induction ds with
    | nil => simp
    | cons e ds ih =>
      intro member
      simp only [heights]
      rcases List.mem_cons.1 member with rfl | member
      · omega
      · have := ih member
        omega
  obtain ⟨name, span, kind, value, children⟩ := d
  have := bounded children member
  simp only [height]
  omega

end DataToken

namespace Outline

inductive Entry
  | strict
  | header (s : Section)
  | importOf (i : ImportToken)
  | var (v : VarToken)
  | function (f : MethodToken)
  | rule (v : VarToken)
  | item (v : VarToken)
  | entity (kind : EntityKind) (e : EntityToken)
  | constant (c : VarToken)
  | accessor (a : AccessorToken)
  | property (p : PropertyToken)
  | usedTrait (e : EntityToken)
  | method (f : MethodToken)
  | media (condition : String) (m : SelectorMap)
  | selector (selector : String) (ds : List VarToken)
  | declaration (d : VarToken)
  /-- A data value inside a value of the first kind. -/
  | data (parent : DataKind) (d : DataToken)

namespace Entry

/-- The tokens under the heading of a section. -/
def ofSection (t : TokenTree) : Section → List Entry
  | .imports => t.imports.map .importOf
  | .vars => t.vars.map .var
  | .functions => t.functions.map .function
  | .rules => t.rules.map .rule
  | .items => t.items.map .item

/-- The members that are listed below an entity. Accessors belong to classes only, and
interfaces use no traits. -/
def ofMembers (kind : EntityKind) (e : EntityToken) : List Entry :=
  e.constants.map .constant ++
  (if kind = .class then e.accessors.map .accessor else []) ++
  e.properties.map .property ++
  (if kind = .interface then [] else e.traits.map .usedTrait) ++
  e.methods.map .method

def ofSelectors (m : SelectorMap) : List Entry := m.entries.map (fun (s, ds) => .selector s ds)

def ofChildren (d : DataToken) : List Entry := d.children.map (.data d.kind)

/-- The entries whose tokens stand directly inside the token of an entry. -/
def nested (t : TokenTree) : Entry → List Entry
  | .header s => ofSection t s
  | .entity kind e => ofMembers kind e
  | .media _ m => ofSelectors m
  | .selector _ ds => ds.map .declaration
  | .data _ d => ofChildren d
  | _ => []

/-- Entries that have nothing to open, whatever the tree. -/
def isLeaf : Entry → Bool
  | .header _ | .entity _ _ | .media _ _ | .selector _ _ => false
  | .data _ d => !d.kind.isContainer
  | _ => true

/-- The outermost data values. A container at the root is no entry itself. -/
def rootValues (t : TokenTree) : List Entry :=
  match t.data with
  | none => []
  | some root => if root.kind.isContainer then ofChildren root else [.data .value root]

/-- The entries that are nested in no other. -/
def outermost (t : TokenTree) : List Entry :=
  (if t.strict = some true then [.strict] else []) ++
  (Section.all.filter (fun s => !s.isEmpty t)).map .header ++
  t.entities.map (fun (kind, e) => .entity kind e) ++
  t.media.entries.map (fun (condition, m) => .media condition m) ++
  ofSelectors t.nodes ++
  rootValues t

/-! Every entry of a tree, flat. -/

mutual

/-- A data value and all values inside it. -/
def values (parent : DataKind) : DataToken → List Entry
  | ⟨name, span, kind, value, children⟩ =>
    .data parent ⟨name, span, kind, value, children⟩ :: valuesOf kind children

def valuesOf (parent : DataKind) : List DataToken → List Entry
  | [] => []
  | d :: ds => values parent d ++ valuesOf parent ds

end

/-- All selectors of a map, each with its declarations. -/
def styles (m : SelectorMap) : List Entry :=
  m.entries.flatMap (fun (s, ds) => .selector s ds :: ds.map .declaration)

/-- All data values but a container at the root. -/
def allValues (t : TokenTree) : List Entry :=
  match t.data with
  | none => []
  | some root =>
    if root.kind.isContainer then valuesOf root.kind root.children else [.data .value root]

/-- The strict sign, a heading for each section that is not empty, the tokens of the sections,
all entities with their members, all media blocks and selectors with their declarations, and
all data values but a container at the root. -/
def listed (t : TokenTree) : List Entry :=
  (if t.strict = some true then [.strict] else []) ++
  (Section.all.filter (fun s => !s.isEmpty t)).map .header ++
  (t.imports.map .importOf ++ t.vars.map .var ++ t.functions.map .function ++
    t.rules.map .rule ++ t.items.map .item) ++
  t.entities.flatMap (fun (kind, e) => .entity kind e :: ofMembers kind e) ++
  t.media.entries.flatMap (fun (condition, m) => .media condition m :: styles m) ++
  styles t.nodes ++
  allValues t

/-- An entry with all entries below it. -/
def within (t : TokenTree) : Entry → List Entry
  | .header s => .header s :: ofSection t s
  | .entity kind e => .entity kind e :: ofMembers kind e
  | .media condition m => .media condition m :: styles m
  | .selector s ds => .selector s ds :: ds.map .declaration
  | .data parent d => values parent d
  | e => [e]

/-- How many levels of entries are below an entry, or more. -/
def height : Entry → Nat
  | .header _ | .entity _ _ | .selector _ _ => 1
  | .media _ _ => 2
  | .data _ d => d.height
  | _ => 0

private def IsPlain (t : TokenTree) (x : Entry) : Prop := x.within t = [x] ∧ x.height = 0

private theorem ofSection_isPlain {t : TokenTree} {s : Section} {x : Entry}
    (inside : x ∈ ofSection t s) : IsPlain t x := by
  cases s <;> obtain ⟨a, -, rfl⟩ := List.mem_map.1 inside <;> exact ⟨rfl, rfl⟩

private theorem ofMembers_isPlain (t : TokenTree) {kind : EntityKind} {e : EntityToken} {x : Entry}
    (inside : x ∈ ofMembers kind e) : IsPlain t x := by
  simp only [ofMembers, List.mem_append, List.mem_map] at inside
  rcases inside with (((⟨c, -, rfl⟩ | accessor) | ⟨p, -, rfl⟩) | used) | ⟨f, -, rfl⟩
  · exact ⟨rfl, rfl⟩
  · split at accessor
    · obtain ⟨a, -, rfl⟩ := List.mem_map.1 accessor
      exact ⟨rfl, rfl⟩
    · cases accessor
  · exact ⟨rfl, rfl⟩
  · split at used
    · cases used
    · obtain ⟨u, -, rfl⟩ := List.mem_map.1 used
      exact ⟨rfl, rfl⟩
  · exact ⟨rfl, rfl⟩

private theorem declarations_isPlain (t : TokenTree) {ds : List VarToken} {x : Entry}
    (inside : x ∈ ds.map declaration) : IsPlain t x := by
  obtain ⟨d, -, rfl⟩ := List.mem_map.1 inside
  exact ⟨rfl, rfl⟩

theorem height_lt_of_nested {t : TokenTree} {e x : Entry} (inside : x ∈ e.nested t) :
    x.height < e.height := by
  cases e with
  | header s => rw [(ofSection_isPlain inside).2]; exact Nat.one_pos
  | entity kind e => rw [(ofMembers_isPlain t inside).2]; exact Nat.one_pos
  | media condition m =>
    obtain ⟨⟨s, ds⟩, -, rfl⟩ := List.mem_map.1 inside
    exact Nat.one_lt_two
  | selector s ds => rw [(declarations_isPlain t inside).2]; exact Nat.one_pos
  | data parent d =>
    obtain ⟨c, member, rfl⟩ := List.mem_map.1 inside
    exact DataToken.height_lt_of_mem member
  | strict | importOf | var | function | rule | item | constant | accessor | property
    | usedTrait | method | declaration => cases inside

private theorem valuesOf_eq_flatMap (parent : DataKind) (ds : List DataToken) :
    valuesOf parent ds = ds.flatMap (values parent) := by
  induction ds with
  | nil => rfl
  | cons d ds ih => simp only [valuesOf, ih, List.flatMap_cons]

private theorem values_eq (parent : DataKind) (d : DataToken) :
    values parent d = .data parent d :: valuesOf d.kind d.children := by
  obtain ⟨name, span, kind, value, children⟩ := d
  simp only [values]

private theorem flatMap_within_of_isPlain {t : TokenTree} {es : List Entry}
    (plain : ∀ x ∈ es, IsPlain t x) : es.flatMap (within t) = es := by
  induction es with
  | nil => rfl
  | cons e es ih =>
    rw [List.flatMap_cons, (plain e List.mem_cons_self).1,
      ih (fun x member => plain x (List.mem_cons_of_mem _ member)), List.singleton_append]

private theorem flatMap_within_ofSelectors (t : TokenTree) (m : SelectorMap) :
    (ofSelectors m).flatMap (within t) = styles m := by
  simp only [ofSelectors, styles, List.flatMap_map, within]

private theorem flatMap_within_ofChildren (t : TokenTree) (d : DataToken) :
    (ofChildren d).flatMap (within t) = valuesOf d.kind d.children := by
  simp only [ofChildren, List.flatMap_map, within, valuesOf_eq_flatMap]

theorem within_eq (t : TokenTree) (e : Entry) :
    e.within t = e :: (e.nested t).flatMap (within t) := by
  cases e with
  | header s =>
    rw [nested, flatMap_within_of_isPlain (fun _ inside => ofSection_isPlain inside), within]
  | entity kind e =>
    rw [nested, flatMap_within_of_isPlain (fun _ inside => ofMembers_isPlain t inside), within]
  | media condition m => rw [nested, flatMap_within_ofSelectors, within]
  | selector s ds =>
    rw [nested, flatMap_within_of_isPlain (fun _ inside => declarations_isPlain t inside), within]
  | data parent d => rw [nested, flatMap_within_ofChildren, within, values_eq]
  | strict | importOf | var | function | rule | item | constant | accessor | property
    | usedTrait | method | declaration => rfl

private theorem ofSection_eq_nil {t : TokenTree} {s : Section} (empty : s.isEmpty t = true) :
    ofSection t s = [] := by
  cases s <;> simpa [ofSection, Section.isEmpty] using empty

private theorem flatMap_filter_ofSection (t : TokenTree) (sections : List Section) :
    (sections.filter (fun s => !s.isEmpty t)).flatMap (ofSection t) =
      sections.flatMap (ofSection t) := by
  induction sections with
  | nil => rfl
  | cons s sections ih =>
    cases empty : s.isEmpty t with
    | true => simp [empty, ih, ofSection_eq_nil empty]
    | false => simp [empty, ih]

private theorem headers_perm (t : TokenTree) :
    (((Section.all.filter (fun s => !s.isEmpty t)).map Entry.header).flatMap (within t)).Perm
      ((Section.all.filter (fun s => !s.isEmpty t)).map .header ++
        (t.imports.map .importOf ++ t.vars.map .var ++ t.functions.map .function ++
          t.rules.map .rule ++ t.items.map .item)) := by
  have tokens : (Section.all.filter (fun s => !s.isEmpty t)).flatMap (ofSection t) =
      t.imports.map .importOf ++ t.vars.map .var ++ t.functions.map .function ++
        t.rules.map .rule ++ t.items.map .item := by
    rw [flatMap_filter_ofSection]
    simp [Section.all, ofSection]
  rw [List.flatMap_map, ← tokens]
  exact (List.map_append_flatMap_perm _ Entry.header (ofSection t)).symm

private theorem flatMap_within_rootValues {t : TokenTree} (proper : t.hasProperData = true) :
    (rootValues t).flatMap (within t) = allValues t := by
  unfold rootValues allValues
  cases data : t.data with
  | none => rfl
  | some root =>
    have sound : root.isProper = true := by simpa [TokenTree.hasProperData, data] using proper
    by_cases container : root.kind.isContainer = true
    · simp only [if_pos container, flatMap_within_ofChildren]
    · have bare : root.children = [] :=
        ((DataToken.isProper_iff root).1 sound).1 (Bool.eq_false_iff.2 container)
      simp only [if_neg container, List.flatMap_cons, List.flatMap_nil, within, values_eq, bare,
        valuesOf, List.append_nil]

theorem outermost_within_perm {t : TokenTree} (proper : t.hasProperData = true) :
    ((outermost t).flatMap (within t)).Perm (listed t) := by
  have strict : (if t.strict = some true then [Entry.strict] else []).flatMap (within t) =
      if t.strict = some true then [.strict] else [] := by
    split <;> rfl
  have entities : (t.entities.map (fun (kind, e) => Entry.entity kind e)).flatMap (within t) =
      t.entities.flatMap (fun (kind, e) => .entity kind e :: ofMembers kind e) :=
    List.flatMap_map _ _ _
  have media : (t.media.entries.map (fun (condition, m) => Entry.media condition m)).flatMap
      (within t) = t.media.entries.flatMap (fun (condition, m) => .media condition m :: styles m) :=
    List.flatMap_map _ _ _
  simp only [outermost, listed, List.flatMap_append, flatMap_within_rootValues proper,
    flatMap_within_ofSelectors, strict, entities, media]
  refine List.Perm.append_right _ (List.Perm.append_right _ (List.Perm.append_right _
    (List.Perm.append_right _ ?_)))
  rw [List.append_assoc]
  exact (headers_perm t).append_left _

end Entry

end Outline

end CodeOutline
