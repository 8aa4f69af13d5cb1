import CodeOutline.Token.Encoding

/-!
Reading what was written gives the same tokens again. A record is read field by field: each
field that is written stands under a key of its own, and one that is left out is read as its
default. Entities and data values are read as deep as the written value is nested.
-/

set_option autoImplicit false

namespace CodeOutline

open Json (Value)

namespace Json.Value

/-! ## Fields of a record -/

/-- A field under its key, if it has a value. -/
def member (key : String) (v : Option Value) : Option (String × Value) := v.map (fun v => (key, v))

def rowFields (rows : List (String × Option Value)) : List (Option (String × Value)) :=
  rows.map (fun row => member row.1 row.2)

theorem rowFields_cons (row : String × Option Value) (rows : List (String × Option Value)) :
    rowFields (row :: rows) = member row.1 row.2 :: rowFields rows := rfl

theorem rowFields_append (rows more : List (String × Option Value)) :
    rowFields (rows ++ more) = rowFields rows ++ rowFields more := List.map_append

def Holds (v : Value) : List (String × Option Value) → Prop
  | [] => True
  | (key, o) :: rows => v.field? key = o ∧ Holds v rows

theorem holds_of_forall {v : Value} {rows : List (String × Option Value)}
    (each : ∀ row ∈ rows, v.field? row.1 = row.2) : Holds v rows := by
  induction rows with
  | nil => trivial
  | cons row rows ih =>
    have here := each row List.mem_cons_self
    exact ⟨here, ih (fun later inside => each later (List.mem_cons_of_mem row inside))⟩

theorem Holds.append {v : Value} {rows more : List (String × Option Value)}
    (holds : Holds v (rows ++ more)) : Holds v rows ∧ Holds v more := by
  induction rows with
  | nil => exact ⟨trivial, holds⟩
  | cons row rows ih =>
    obtain ⟨here, later⟩ := holds
    exact ⟨⟨here, (ih later).1⟩, (ih later).2⟩

private theorem field?_cons_self (key : String) (o : Option Value)
    (fs : List (Option (String × Value))) (absent : (ofFields fs).field? key = none) :
    (ofFields (member key o :: fs)).field? key = o := by
  cases o with
  | none => exact absent
  | some v => simp [ofFields, member, field?]

private theorem field?_cons_of_ne {key other : String} (apart : other ≠ key) (o : Option Value)
    (fs : List (Option (String × Value))) :
    (ofFields (member other o :: fs)).field? key = (ofFields fs).field? key := by
  cases o with
  | none => rfl
  | some v => simp [ofFields, member, field?, apart]

private theorem field?_of_absent {key : String} {rows : List (String × Option Value)}
    (absent : key ∉ rows.map (·.1)) : (ofFields (rowFields rows)).field? key = none := by
  induction rows with
  | nil => rfl
  | cons row rows ih =>
    rw [List.map_cons, List.mem_cons, not_or] at absent
    rw [rowFields_cons, field?_cons_of_ne (Ne.symm absent.1), ih absent.2]

theorem field?_ofFields {rows : List (String × Option Value)} (distinct : (rows.map (·.1)).Nodup)
    {key : String} {o : Option Value} (inside : (key, o) ∈ rows) :
    (ofFields (rowFields rows)).field? key = o := by
  induction rows with
  | nil => cases inside
  | cons first rows ih =>
    obtain ⟨absent, distinct⟩ := List.nodup_cons.1 distinct
    rw [rowFields_cons]
    rcases List.mem_cons.1 inside with rfl | later
    · exact field?_cons_self _ _ _ (field?_of_absent absent)
    · have apart : first.1 ≠ key := by
        intro same
        exact absent (List.mem_map.2 ⟨(key, o), later, same.symm⟩)
      rw [field?_cons_of_ne apart]
      exact ih distinct later

theorem ofFields_holds {rows : List (String × Option Value)} (distinct : (rows.map (·.1)).Nodup) :
    Holds (ofFields (rowFields rows)) rows :=
  holds_of_forall (fun _ inside => field?_ofFields distinct inside)

/-! ## Depth -/

theorem depth_le_depthItems {v : Value} {items : List Value} (inside : v ∈ items) :
    v.depth ≤ depthItems items := by
  induction items with
  | nil => cases inside
  | cons w items ih =>
    simp only [depthItems]
    rcases List.mem_cons.1 inside with rfl | later
    · omega
    · have := ih later
      omega

theorem depth_le_depthMembers {key : String} {v : Value} {members : List (String × Value)}
    (inside : (key, v) ∈ members) : v.depth ≤ depthMembers members := by
  induction members with
  | nil => cases inside
  | cons m members ih =>
    obtain ⟨k, w⟩ := m
    simp only [depthMembers]
    rcases List.mem_cons.1 inside with same | later
    · obtain ⟨rfl, rfl⟩ := Prod.mk.inj same
      omega
    · have := ih later
      omega

theorem depth_pos (v : Value) : 0 < v.depth := by
  cases v <;> simp [depth]

theorem depth_lt_of_field? {v w : Value} {key : String} (found : v.field? key = some w) :
    w.depth < v.depth := by
  cases v with
  | obj members =>
    obtain ⟨⟨k, w'⟩, first, rfl⟩ := Option.map_eq_some_iff.1 found
    have := depth_le_depthMembers (List.mem_of_find?_eq_some first)
    simp only [depth]
    omega
  | null | bool | num | str | arr => cases found

theorem depth_lt_of_mem {v : Value} {items : List Value} (inside : v ∈ items) :
    v.depth < (arr items).depth := by
  have := depth_le_depthItems inside
  simp only [depth]
  omega

end Json.Value

open Json.Value

/-! ## The fields that are written -/

namespace Encoding

def flag? (b : Bool) : Option Value := if b then some (.bool true) else none

def items? (items : List Value) : Option Value :=
  if items.isEmpty then none else some (.arr items)

def map? (form : MapForm) (m : OrderedMap Value) : Option Value :=
  if m.isEmpty then none else some (orderedMap form m)

theorem text_eq (key : String) (s : Option String) : text key s = member key (s.map .str) := by
  cases s <;> rfl

theorem flag_eq (key : String) (b : Bool) : flag key b = member key (flag? b) := by
  cases b <;> rfl

theorem list_eq (key : String) (items : List Value) :
    list key items = member key (items? items) := by
  cases items <;> rfl

theorem mapField_eq (form : MapForm) (key : String) (m : OrderedMap Value) :
    mapField form key m = member key (map? form m) := by
  unfold mapField map?
  split <;> rfl

theorem place_eq (s : Option Span) : place s = member "position" (s.map span) := by
  cases s <;> rfl

theorem entities_eq_map (es : List EntityToken) : entities es = es.map entity := by
  induction es with
  | nil => rfl
  | cons e es ih => rw [entities, ih, List.map_cons]

theorem dataList_eq_map (ds : List DataToken) : dataList ds = ds.map data := by
  induction ds with
  | nil => rfl
  | cons d ds ih => rw [dataList, ih, List.map_cons]

/-! What each kind of token writes under its keys. -/

def varRows (v : VarToken) : List (String × Option Value) :=
  [("name", some (.str v.name)), ("position", v.span.map span), ("type", v.type.map .str),
    ("value", v.value.map .str), ("visibility", some (.str v.visibility.word)),
    ("static", flag? v.isStatic)]

def propertyRows (p : PropertyToken) : List (String × Option Value) :=
  varRows p.toVarToken ++ [("readonly", flag? p.isReadonly)]

def accessorRows (a : AccessorToken) : List (String × Option Value) :=
  propertyRows a.toPropertyToken ++
    [("abstract", flag? a.isAbstract), ("direction", some (.str a.direction.word))]

def methodRows (m : MethodToken) : List (String × Option Value) :=
  varRows m.toVarToken ++
    [("arguments", items? (m.arguments.map varToken)), ("abstract", flag? m.isAbstract),
      ("readonly", flag? m.isReadonly)]

def importRows (i : ImportToken) : List (String × Option Value) :=
  [("name", some (.str i.name)), ("position", i.span.map span), ("alias", i.localName.map .str)]

def entityRows (e : EntityToken) : List (String × Option Value) :=
  [("name", some (.str e.name)), ("position", e.span.map span),
    ("visibility", some (.str e.visibility.word)),
    ("constants", items? (e.constants.map varToken)),
    ("properties", items? (e.properties.map property)),
    ("accessors", items? (e.accessors.map accessor)),
    ("methods", items? (e.methods.map method)), ("traits", items? (e.traits.map entity)),
    ("abstract", flag? e.isAbstract), ("readonly", flag? e.isReadonly)]

def dataRows (d : DataToken) : List (String × Option Value) :=
  [("name", some (.str d.name)), ("position", d.span.map span), ("kind", some (.str d.kind.word)),
    ("value", d.value.map .str), ("children", items? (d.children.map data))]

def treeRows (form : MapForm) (t : TokenTree) : List (String × Option Value) :=
  [("strict", t.strict.map .bool), ("namespace", t.space.map .str),
    ("imports", items? (t.imports.map importToken)),
    ("interfaces", items? (t.interfaces.map entity)), ("traits", items? (t.traits.map entity)),
    ("classes", items? (t.classes.map entity)), ("functions", items? (t.functions.map method)),
    ("variables", items? (t.vars.map varToken)), ("rules", items? (t.rules.map varToken)),
    ("items", items? (t.items.map varToken)),
    ("nodes", map? form (t.nodes.map (fun vs => .arr (vs.map varToken)))),
    ("media", map? form (t.media.map (selectors form))), ("data", t.data.map data)]

/-! Each token is written as its rows. -/

theorem varFields_eq (v : VarToken) : varFields v = rowFields (varRows v) := by
  simp only [varFields, varRows, text_eq, flag_eq, place_eq]
  rfl

theorem varToken_holds (v : VarToken) : Holds (varToken v) (varRows v) := by
  rw [varToken, varFields_eq]
  exact ofFields_holds (by simp [varRows])

theorem propertyFields_eq (p : PropertyToken) :
    propertyFields p = rowFields (propertyRows p) := by
  rw [propertyFields, propertyRows, varFields_eq, rowFields_append, flag_eq]
  rfl

theorem property_holds (p : PropertyToken) : Holds (property p) (propertyRows p) := by
  rw [property, propertyFields_eq]
  exact ofFields_holds (by simp [propertyRows, varRows])

theorem accessor_holds (a : AccessorToken) : Holds (accessor a) (accessorRows a) := by
  have written : accessor a = .ofFields (rowFields (accessorRows a)) := by
    rw [accessor, accessorRows, propertyFields_eq, rowFields_append, flag_eq]
    rfl
  rw [written]
  exact ofFields_holds (by simp [accessorRows, propertyRows, varRows])

theorem method_holds (m : MethodToken) : Holds (method m) (methodRows m) := by
  have written : method m = .ofFields (rowFields (methodRows m)) := by
    rw [method, methodRows, varFields_eq, rowFields_append, list_eq, flag_eq, flag_eq]
    rfl
  rw [written]
  exact ofFields_holds (by simp [methodRows, varRows])

theorem importToken_holds (i : ImportToken) : Holds (importToken i) (importRows i) := by
  have written : importToken i = .ofFields (rowFields (importRows i)) := by
    rw [importToken, place_eq, text_eq]
    rfl
  rw [written]
  exact ofFields_holds (by simp [importRows])

theorem entity_holds (e : EntityToken) : Holds (entity e) (entityRows e) := by
  have written : entity e = .ofFields (rowFields (entityRows e)) := by
    obtain ⟨_, _, _, _, _, _, _, _, _, _⟩ := e
    simp only [entity, place_eq, list_eq, flag_eq, entities_eq_map]
    rfl
  rw [written]
  exact ofFields_holds (by simp [entityRows])

theorem data_holds (d : DataToken) : Holds (data d) (dataRows d) := by
  have written : data d = .ofFields (rowFields (dataRows d)) := by
    obtain ⟨_, _, _, _, _⟩ := d
    simp only [data, place_eq, text_eq, list_eq, dataList_eq_map]
    rfl
  rw [written]
  exact ofFields_holds (by simp [dataRows])

theorem treeFields_eq (form : MapForm) (t : TokenTree) :
    treeFields form t = rowFields (treeRows form t) := by
  have strict : t.strict.map (fun b => ("strict", Value.bool b)) =
      member "strict" (t.strict.map .bool) := by
    cases t.strict <;> rfl
  have root : t.data.map (fun d => ("data", data d)) = member "data" (t.data.map data) := by
    cases t.data <;> rfl
  simp only [treeFields, strict, root, list_eq, text_eq, mapField_eq, entities_eq_map]
  rfl

theorem treeIn_holds (form : MapForm) (t : TokenTree) :
    Holds (treeIn form t) (treeRows form t) := by
  rw [treeIn, treeFields_eq]
  exact ofFields_holds (by simp [treeRows])

end Encoding

/-! ## Reading one field -/

namespace Decoding

theorem mapM_map {α β : Type} {read : β → Option α} {write : α → β} {as : List α}
    (law : ∀ a ∈ as, read (write a) = some a) :
    (as.map write).mapM read = some as := by
  induction as with
  | nil => rfl
  | cons a as ih =>
    have rest := ih (fun b member => law b (List.mem_cons_of_mem a member))
    rw [List.map_cons, List.mapM_cons, law a List.mem_cons_self, rest]
    rfl

section OneField

variable {α : Type} {v : Value} {key : String} {read : Value → Option α} {write : α → Value}

theorem fieldOr_of_none {default : α} (absent : v.field? key = none) :
    fieldOr v key default read = some default := by
  simp only [fieldOr, given, absent]

theorem fieldOr_of_some {default : α} {x : Value} (found : v.field? key = some x)
    (notNull : x ≠ .null) : fieldOr v key default read = read x := by
  have given : given v key = some x := by
    unfold given
    rw [found]
    split
    · next null => exact absurd (Option.some.inj null) notNull
    · rfl
  simp only [fieldOr, given]

theorem optional_eq {o : Option α} (found : v.field? key = o.map write)
    (law : ∀ a, read (write a) = some a) (notNull : ∀ a, write a ≠ .null) :
    optional v key read = some o := by
  cases o with
  | none => exact fieldOr_of_none found
  | some a =>
    rw [optional, fieldOr_of_some found (notNull a), law, Option.map_some]

theorem listOf_eq {as : List α} (found : v.field? key = Encoding.items? (as.map write))
    (law : ∀ a ∈ as, read (write a) = some a) : listOf v key read = some as := by
  cases as with
  | nil => exact fieldOr_of_none found
  | cons a as =>
    have present : v.field? key = some (.arr ((a :: as).map write)) := found
    rw [listOf, fieldOr_of_some present (by simp), items?, Option.bind_some, mapM_map law]

end OneField

theorem flag_eq {v : Value} {key : String} {b : Bool}
    (found : v.field? key = Encoding.flag? b) : flag v key = some b := by
  cases b with
  | false => exact fieldOr_of_none found
  | true => exact fieldOr_of_some found (by simp)

theorem visibility_eq {v : Value} {vis : Visibility}
    (found : v.field? "visibility" = some (.str vis.word)) : visibility v = some vis := by
  rw [visibility, fieldOr_of_some found (by simp)]
  cases vis <;> rfl

theorem span_span (s : Span) : span (Encoding.span s) = some s := rfl

theorem place_eq {v : Value} {s : Option Span}
    (found : v.field? "position" = s.map Encoding.span) : optional v "position" span = some s :=
  optional_eq found span_span (fun _ => by simp [Encoding.span])

theorem text_eq {v : Value} {key : String} {s : Option String}
    (found : v.field? key = s.map .str) : optional v key Value.str? = some s :=
  optional_eq found (fun _ => rfl) (fun _ => by simp)

/-! ## Reading one token -/

theorem varToken_of_holds {value : Value} {v : VarToken}
    (holds : Holds value (Encoding.varRows v)) : varToken value = some v := by
  obtain ⟨name, place, type, text, vis, isStatic, -⟩ := holds
  simp only [varToken, name, place_eq place, text_eq type, text_eq text, visibility_eq vis,
    flag_eq isStatic]
  rfl

theorem property_of_holds {value : Value} {p : PropertyToken}
    (holds : Holds value (Encoding.propertyRows p)) : property value = some p := by
  obtain ⟨base, isReadonly, -⟩ := holds.append
  simp only [property, varToken_of_holds base, flag_eq isReadonly]
  rfl

theorem direction_word (d : Direction) : direction (.str d.word) = some d := by
  cases d <;> rfl

theorem accessor_of_holds {value : Value} {a : AccessorToken}
    (holds : Holds value (Encoding.accessorRows a)) : accessor value = some a := by
  obtain ⟨base, isAbstract, way, -⟩ := holds.append
  simp only [accessor, property_of_holds base, flag_eq isAbstract, way, Option.bind_eq_bind,
    Option.bind_some, direction_word]

theorem varToken_varToken (v : VarToken) : varToken (Encoding.varToken v) = some v :=
  varToken_of_holds (Encoding.varToken_holds v)

theorem property_property (p : PropertyToken) : property (Encoding.property p) = some p :=
  property_of_holds (Encoding.property_holds p)

theorem accessor_accessor (a : AccessorToken) : accessor (Encoding.accessor a) = some a :=
  accessor_of_holds (Encoding.accessor_holds a)

theorem method_method (m : MethodToken) : method (Encoding.method m) = some m := by
  obtain ⟨base, written, isAbstract, isReadonly, -⟩ := (Encoding.method_holds m).append
  have arguments := listOf_eq written (fun v _ => varToken_varToken v)
  simp only [method, varToken_of_holds base, arguments, flag_eq isAbstract, flag_eq isReadonly]
  rfl

theorem importToken_importToken (i : ImportToken) :
    importToken (Encoding.importToken i) = some i := by
  obtain ⟨name, place, localName, -⟩ := Encoding.importToken_holds i
  simp only [importToken, name, place_eq place, text_eq localName]
  rfl

/-! ## Reading nested tokens -/

theorem depth_lt_of_items {α : Type} {v : Value} {key : String} {write : α → Value} {as : List α}
    (found : v.field? key = Encoding.items? (as.map write)) {a : α} (inside : a ∈ as) :
    (write a).depth < v.depth := by
  have written : write a ∈ as.map write := List.mem_map_of_mem inside
  have full : Encoding.items? (as.map write) = some (.arr (as.map write)) := by
    rw [Encoding.items?, if_neg]
    simpa using List.ne_nil_of_mem inside
  exact Nat.lt_trans (depth_lt_of_mem written) (depth_lt_of_field? (found.trans full))

theorem entityTo_entity (depth : Nat) (e : EntityToken)
    (deep : (Encoding.entity e).depth ≤ depth) :
    entityTo depth (Encoding.entity e) = some e := by
  induction depth generalizing e with
  | zero =>
    have := depth_pos (Encoding.entity e)
    omega
  | succ depth ih =>
    obtain ⟨name, place, vis, constants, properties, accessors, methods, traits, isAbstract,
      isReadonly, -⟩ := Encoding.entity_holds e
    have read : listOf (Encoding.entity e) "traits" (entityTo depth) = some e.traits := by
      refine listOf_eq traits ?_
      intro trait inside
      have lower := depth_lt_of_items traits inside
      exact ih trait (by omega)
    simp only [entityTo, name, place_eq place, visibility_eq vis,
      listOf_eq constants (fun v _ => varToken_varToken v),
      listOf_eq properties (fun p _ => property_property p),
      listOf_eq accessors (fun a _ => accessor_accessor a),
      listOf_eq methods (fun m _ => method_method m), read, flag_eq isAbstract, flag_eq isReadonly]
    -- An entity that holds entities is made again from its fields only once it is taken apart.
    cases e
    rfl

theorem entity_entity (e : EntityToken) : entity (Encoding.entity e) = some e :=
  entityTo_entity _ e (Nat.le_refl _)

theorem dataKind_word (kind : DataKind) : dataKind (.str kind.word) = some kind := by
  cases kind <;> rfl

theorem dataTo_data (depth : Nat) (d : DataToken) (deep : (Encoding.data d).depth ≤ depth) :
    dataTo depth (Encoding.data d) = some d := by
  induction depth generalizing d with
  | zero =>
    have := depth_pos (Encoding.data d)
    omega
  | succ depth ih =>
    obtain ⟨name, place, kind, text, children, -⟩ := Encoding.data_holds d
    have read : listOf (Encoding.data d) "children" (dataTo depth) = some d.children := by
      refine listOf_eq children ?_
      intro child inside
      have lower := depth_lt_of_items children inside
      exact ih child (by omega)
    simp only [dataTo, name, place_eq place, fieldOr_of_some kind (by simp), dataKind_word,
      text_eq text, read]
    cases d
    rfl

theorem data_data (d : DataToken) : data (Encoding.data d) = some d :=
  dataTo_data _ d (Nat.le_refl _)

/-! ## Reading ordered maps -/

open Encoding (MapForm)

section Maps

variable {α : Type} {read : Value → Option α} {write : α → Value}

theorem entries_orderedMap (form : MapForm) (m : OrderedMap Value) :
    entries form (Encoding.orderedMap form m) = some m.entries := by
  cases form with
  | members => rfl
  | pairs =>
    have read : (m.entries.map (fun entry => .arr [.str entry.1, entry.2])).mapM pair =
        some m.entries := mapM_map (fun _ _ => rfl)
    exact read

theorem orderedMap_orderedMap (form : MapForm) (m : OrderedMap α)
    (law : ∀ a, read (write a) = some a) :
    orderedMap form read (Encoding.orderedMap form (m.map write)) = some m := by
  have values : (m.map write).entries.mapM (fun entry => (read entry.2).map (fun a => (entry.1, a)))
      = some m.entries := by
    change (m.entries.map (fun entry => (entry.1, write entry.2))).mapM _ = _
    refine mapM_map ?_
    intro entry _
    rw [law, Option.map_some]
  simp only [orderedMap, entries_orderedMap, Option.bind_eq_bind, Option.bind_some, values,
    OrderedMap.ofPairs_entries]

theorem map_eq {form : MapForm} {v : Value} {key : String} {m : OrderedMap α}
    (found : v.field? key = Encoding.map? form (m.map write))
    (law : ∀ a, read (write a) = some a) :
    fieldOr v key .empty (orderedMap form read) = some m := by
  rcases m with ⟨_ | ⟨entry, entries⟩, nodup⟩
  · exact fieldOr_of_none found
  · have present : v.field? key = some (Encoding.orderedMap form _) := found
    rw [fieldOr_of_some present (by cases form <;> simp [Encoding.orderedMap])]
    exact orderedMap_orderedMap form _ law

end Maps

theorem values_values (vs : List VarToken) :
    (Value.arr (vs.map Encoding.varToken)).items?.bind (·.mapM varToken) = some vs := by
  rw [items?, Option.bind_some]
  exact mapM_map (fun v _ => varToken_varToken v)

theorem selectors_selectors (form : MapForm) (m : SelectorMap) :
    selectors form (Encoding.selectors form m) = some m :=
  orderedMap_orderedMap form m values_values

/-! ## Reading a tree -/

theorem treeIn_treeIn (form : MapForm) (t : TokenTree) :
    treeIn form (Encoding.treeIn form t) = some t := by
  obtain ⟨strict, space, imports, interfaces, traits, classes, functions, vars, rules, items, nodes,
    media, data, -⟩ := Encoding.treeIn_holds form t
  have strict : optional (Encoding.treeIn form t) "strict" Value.bool? = some t.strict :=
    optional_eq strict (fun _ => rfl) (fun _ => by simp)
  have data : optional (Encoding.treeIn form t) "data" Decoding.data = some t.data :=
    optional_eq data data_data (fun d => by cases d; simp [Encoding.data, ofFields])
  have entityList := fun (es : List EntityToken) e (_ : e ∈ es) => entity_entity e
  have varList := fun (vs : List VarToken) v (_ : v ∈ vs) => varToken_varToken v
  simp only [treeIn, strict, text_eq space,
    listOf_eq imports (fun i _ => importToken_importToken i), listOf_eq interfaces (entityList _),
    listOf_eq traits (entityList _), listOf_eq classes (entityList _),
    listOf_eq functions (fun m _ => method_method m), listOf_eq vars (varList _),
    listOf_eq rules (varList _), listOf_eq items (varList _)]
  have nodes : fieldOr (Encoding.treeIn form t) "nodes" .empty (selectors form) = some t.nodes :=
    map_eq nodes values_values
  simp only [nodes, map_eq media (selectors_selectors form), data]
  rfl

end Decoding

namespace Encoding

theorem items?_eq_none {α : Type} {write : α → Value} {as : List α} :
    items? (as.map write) = none ↔ as.isEmpty = true := by
  cases as <;> simp [items?]

theorem map?_eq_none {α : Type} {form : MapForm} {write : α → Value} {m : OrderedMap α} :
    map? form (m.map write) = none ↔ m.isEmpty = true := by
  rcases m with ⟨_ | ⟨entry, entries⟩, nodup⟩ <;> simp [map?, OrderedMap.map, OrderedMap.isEmpty]

theorem treeIn_eq_empty_iff (form : MapForm) (t : TokenTree) :
    treeIn form t = .obj [] ↔ t.isEmpty = true := by
  have absent : treeIn form t = .obj [] ↔ ∀ row ∈ treeRows form t, row.2 = none := by
    simp [treeIn, treeFields_eq, ofFields, rowFields, List.filterMap_eq_nil_iff, member]
  rw [absent]
  simp only [treeRows, List.forall_mem_cons, items?_eq_none, map?_eq_none, Option.map_eq_none_iff,
    List.not_mem_nil, false_implies, implies_true, and_true]
  simp only [TokenTree.isEmpty, Bool.and_eq_true, Option.isNone_iff_eq_none, and_assoc]

end Encoding

/-- In either form of its ordered maps, a tree is read again from what is written, and the object
without fields is written just for a tree without tokens. -/
theorem TokenTree.read_written (form : Encoding.MapForm) (t : TokenTree) :
    Decoding.treeIn form (Encoding.treeIn form t) = some t ∧
      (Encoding.treeIn form t = .obj [] ↔ t.isEmpty = true) :=
  ⟨Decoding.treeIn_treeIn form t, Encoding.treeIn_eq_empty_iff form t⟩

end CodeOutline
