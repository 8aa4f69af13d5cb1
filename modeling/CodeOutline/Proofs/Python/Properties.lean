import CodeOutline.Proofs.Analysis.Walks
import CodeOutline.Proofs.Python.Imports
import CodeOutline.Proofs.Syntax.Shapes

/-!
Instance properties of classes. They are the attributes of `self` that are assigned below the body
of the class and in no class inside it, in the order of the document, the first of each name, but
for the names that the class body assigns itself.
-/

set_option autoImplicit false

namespace CodeOutline.Syntax.Node

mutual

def decEq : (m n : Node) → Decidable (m = n)
  | ⟨kind, isNamed, isExtra, field, start, stop, tail, children⟩,
    ⟨kind', isNamed', isExtra', field', start', stop', tail', children'⟩ =>
    have below : Decidable (children = children') := decEqAll children children'
    decidable_of_iff (kind = kind' ∧ isNamed = isNamed' ∧ isExtra = isExtra' ∧ field = field' ∧
      start = start' ∧ stop = stop' ∧ tail = tail' ∧ children = children') (by simp)

def decEqAll : (ms ns : List Node) → Decidable (ms = ns)
  | [], [] => isTrue rfl
  | [], _ :: _ => isFalse nofun
  | _ :: _, [] => isFalse nofun
  | m :: ms, n :: ns =>
    have first : Decidable (m = n) := decEq m n
    have others : Decidable (ms = ns) := decEqAll ms ns
    decidable_of_iff (m = n ∧ ms = ns) (by simp)

end

instance : DecidableEq Node := decEq

end CodeOutline.Syntax.Node

namespace CodeOutline.Analysis.Python

open Syntax (Node Descent Rule)
open EntityToken (insertNew)

/-! ## Classes in a document -/

def isClass (n : Node) : Bool := n.kind == "class_definition"

/-- The classes among the statements of a document, without their decorators. -/
def topClasses (root : Node) : List Node :=
  (root.named.map (fun n => (undecorated n).2)).filter isClass

def enclosingClass? (above : List Node) : Option Node := above.reverse.find? isClass

/-- An assignment whose innermost class is that one. -/
def isOwn (owner : Node) (x : List Node × Node) : Bool :=
  x.2.kind == "assignment" && decide (enclosingClass? x.1 = some owner)

/-- The assignments below the body of a class whose innermost class is that one, in the order of
the document. -/
def ownAssignments (owner body : Node) : List Node :=
  ((body.children.flatMap (Descent.whole.reached [owner, body])).filter (isOwn owner)).map (·.2)

/-- The assignment `self.name = …`, with the node of the name. -/
structure AssignsSelf (x name : Node) : Prop where
  kind : x.kind = "assignment"
  shape : ∃ left object, x.child? "left" = some left ∧ left.kind = "attribute" ∧
    left.child? "object" = some object ∧ object.kind = "identifier" ∧ object.text = "self" ∧
    left.child? "attribute" = some name

/-- What a dot stands behind the identifier `self` for. -/
def attributeOfSelf? (left : Node) : Option Node :=
  match left.child? "object" with
  | some object =>
    if left.kind = "attribute" ∧ object.kind = "identifier" ∧ object.text = "self" then
      left.child? "attribute"
    else none
  | none => none

/-- The node of the name that an assignment gives to an attribute of `self`. -/
def selfName? (x : Node) : Option Node :=
  if x.kind = "assignment" then (x.child? "left").bind attributeOfSelf? else none

/-- The nodes of the names that the statements of a class body assign. -/
def classNames (body : Node) : List Node :=
  (body.named.map (fun n => (undecorated n).2)).flatMap (fun statement =>
    if statement.kind = "expression_statement" then
      (statement.named.filter (·.kind == "assignment")).filterMap (fun assign =>
        (assign.child? "left").filter (·.kind == "identifier"))
    else [])

def classAttributes (n : Node) : List PropertyToken :=
  if (undecorated n).2.kind = "expression_statement" then
    (assignments (undecorated n).2).map (fun v => { toVarToken := { v with isStatic := true } })
  else []

/-! ## What the grammar says of a class -/

section Grammar

open Grammar.Python (Name grammar nameScan)

def IsWhole (n : Node) : Prop :=
  n.kind = "class_definition" → (∃ x ∈ n.children, x.field = some "name") ∧
    ∀ x ∈ n.children, x.field = some "body" → x.kind = "block"

def classRule (signs : List String) (parameters : Rule Name) : Rule Name :=
  .seq (.word "class") (.seq (.field "name" (.leaf "identifier" nameScan)) (.seq parameters
    (.seq (.alt (.call .arguments) .done)
      (.seq (.longest signs [":"]) (.field "body" (.call .block))))))

def isClassless (a : Rule Name) : Bool := a.shuns (· == "class_definition")

variable {text : List Char} {signs : List String} {parameters : Rule Name}

theorem builds_of_isClassless {a : Rule Name} (classless : isClassless a = true) :
    a.Builds grammar text IsWhole := by
  refine Rule.builds_of_shuns (fun n other same => ?_) classless
  rw [same] at other
  cases other

theorem rules_roleless (name : Name) : (grammar.rule name).isRoleless = true := by
  cases name <;> rfl

theorem classRule_builds (free : parameters.isRoleless = true)
    (classless : isClassless parameters = true) :
    (Rule.node "class_definition" (classRule signs parameters)).Builds grammar text IsWhole := by
  have inner : isClassless (classRule signs parameters) = true := by
    simpa [isClassless, classRule, Rule.shuns, Rule.shunsBut] using classless
  refine ⟨builds_of_isClassless inner, fun fuel c xs stop run _ each n around _ => ?_⟩
  rw [around.children_eq]
  constructor
  · cases Syntax.Grammar.derives_of_run run with
    | seq _ others =>
      cases others with
      | seq name _ =>
        obtain ⟨extras, x, rfl, -, proper, u, -, same⟩ := Syntax.Grammar.single_field
          (fun derived => (Syntax.Grammar.single_leaf derived).mono fun _ own => own.2) name
        refine ⟨x, Syntax.Grammar.mem_core ?_ proper, by rw [same]⟩
        exact List.mem_append_right _ (List.mem_append_left _ (by simp))
  · intro x member role
    have there := (Syntax.Grammar.mem_splitExtras xs).1 (.inr member)
    have block : (Rule.field "body" (.call .block)).Fills grammar "body" (·.kind = "block") :=
      Syntax.Grammar.fills_node rfl (fun _ same => same)
    have fills : (classRule signs parameters).Fills grammar "body" (·.kind = "block") :=
      .seq (.free rfl) (.seq (.field (by decide) (.free rfl)) (.seq (.free free)
        (.seq (.free rfl) (.seq (.free rfl) block))))
    exact Syntax.Grammar.of_fills rules_roleless fills (Syntax.Grammar.derives_of_run run) x there
      (each x there).here.1.tidy role

theorem rules_line : ∃ function signs parameters decorators compound simple,
    Grammar.Python.rules .line =
      .alt (.alt (.alt function (.node "class_definition" (classRule signs parameters)))
        (.alt (.node "decorated_definition" (.seq decorators (.field "definition"
          (.alt function (.node "class_definition" (classRule signs parameters)))))) compound))
        simple ∧
    parameters.isRoleless = true ∧
    ∀ a ∈ [function, parameters, decorators, compound, simple], isClassless a = true :=
  ⟨_, _, _, _, _, _, rfl, rfl, by decide⟩

theorem rules_build (name : Name) : (grammar.rule name).Builds grammar text IsWhole := by
  cases name with
  | line =>
    obtain ⟨function, signs, parameters, decorators, compound, simple, rule, free, classless⟩ :=
      rules_line
    simp only [List.forall_mem_cons] at classless
    obtain ⟨ofFunction, ofParameters, ofDecorators, ofCompound, ofSimple, -⟩ := classless
    have definition : (Rule.node "class_definition" (classRule signs parameters)).Builds grammar
        text IsWhole := classRule_builds free ofParameters
    have either : (Rule.alt function (.node "class_definition"
        (classRule signs parameters))).Builds grammar text IsWhole :=
      ⟨builds_of_isClassless ofFunction, definition⟩
    have marked : (Rule.node "decorated_definition" (.seq decorators (.field "definition" (.alt
        function (.node "class_definition" (classRule signs parameters)))))).Builds grammar text
          IsWhole := by
      refine ⟨⟨builds_of_isClassless ofDecorators, either⟩, fun _ _ _ _ _ _ _ n around same => ?_⟩
      rw [around.kind_eq] at same
      exact absurd same (by decide)
    show (Grammar.Python.rules .line).Builds grammar text IsWhole
    rw [rule]
    exact ⟨⟨either, marked, builds_of_isClassless ofCompound⟩, builds_of_isClassless ofSimple⟩
  | _ => exact builds_of_isClassless (by decide)

theorem isWhole_of_read? {root n c : Node} (read : Grammar.Python.read? text = some root)
    (member : n ∈ root.children) (has : n.Has c) : IsWhole c := by
  refine (has.each (Syntax.Grammar.each_of_read? ?comments ?roles ?moves rules_build ?own
    (builds_of_isClassless (by decide)) read n member)).here.2
  case comments =>
    intro depth cs length kind found n same own
    rw [same, (comment_of_between found).1] at own
    exact absurd own (by decide)
  case roles => exact fun whole _ => whole
  case moves =>
    exact fun name f among => ⟨Grammar.Python.staysIn_rules name f among,
      Grammar.Python.goesOn_rules name f among⟩
  case own =>
    refine List.forall_mem_append.2 ⟨fun f among => ?_, fun f among => ?_⟩
    · exact ⟨Grammar.Python.staysIn_nextInBlock f among, Grammar.Python.goesOn_nextInBlock f among⟩
    · exact ⟨Grammar.Python.staysIn_remainder f among, Grammar.Python.goesOn_remainder f among⟩

end Grammar

/-! ## The assignments of a class -/

theorem selfPropertiesIn_eq (ns : List Node) : selfPropertiesIn ns = ns.flatMap selfProperties := by
  induction ns with
  | nil => rfl
  | cons n ns ih => rw [selfPropertiesIn, ih, List.flatMap_cons]

theorem selfProperties_eq (n : Node) : selfProperties n =
    if isClass n then [] else
      (if n.kind = "assignment" then (selfProperty? n).toList else []) ++
        n.children.flatMap selfProperties := by
  cases n
  simp only [selfProperties, selfPropertiesIn_eq, isClass, beq_iff_eq]

section Walk

variable {owner : Node}

@[simp]
theorem enclosingClass?_concat (above : List Node) (n : Node) :
    enclosingClass? (above ++ [n]) = if isClass n then some n else enclosingClass? above := by
  rw [enclosingClass?, List.reverse_concat, List.find?_cons]
  cases isClass n <;> rfl

def ownProperty? (owner : Node) (x : List Node × Node) : Option PropertyToken :=
  if isOwn owner x then selfProperty? x.2 else none

theorem filterMap_ownAssignments (owner body : Node) :
    (ownAssignments owner body).filterMap selfProperty? =
      body.children.flatMap (fun n =>
        (Descent.whole.reached [owner, body] n).filterMap (ownProperty? owner)) := by
  rw [ownAssignments, List.filterMap_map, List.filterMap_filter, List.filterMap_flatMap]
  rfl

theorem filterMap_own_of_inner {above : List Node} {n inner : Node}
    (here : enclosingClass? above = some inner) (smaller : sizeOf inner < sizeOf owner)
    (within : sizeOf n < sizeOf owner) :
    (Descent.whole.reached above n).filterMap (ownProperty? owner) = [] := by
  have other : inner ≠ owner := by
    rintro rfl
    exact Nat.lt_irrefl _ smaller
  have first : ownProperty? owner (above, n) = none := by simp [ownProperty?, isOwn, here, other]
  rw [Descent.filterMap_reached, first, Option.toList_none, List.nil_append,
    List.flatMap_eq_nil_iff]
  intro c member
  have less := Node.sizeOf_of_mem_children member
  have below : sizeOf c < sizeOf owner := Nat.lt_trans less within
  by_cases class' : isClass n = true
  · exact filterMap_own_of_inner (by rw [enclosingClass?_concat, if_pos class']) within below
  · exact filterMap_own_of_inner (by rw [enclosingClass?_concat, if_neg class', here]) smaller below
termination_by sizeOf n

/-- The walk that leaves out the classes inside comes to what has the owner as its innermost
class. -/
theorem selfProperties_eq_own {above : List Node} {n : Node}
    (here : enclosingClass? above = some owner) (within : sizeOf n < sizeOf owner) :
    selfProperties n = (Descent.whole.reached above n).filterMap (ownProperty? owner) := by
  rw [selfProperties_eq, Descent.filterMap_reached]
  by_cases class' : isClass n = true
  · have kind : n.kind ≠ "assignment" := by
      rw [beq_iff_eq.1 class']
      decide
    have first : ownProperty? owner (above, n) = none := by simp [ownProperty?, isOwn, kind]
    rw [if_pos class', first, Option.toList_none, List.nil_append, eq_comm,
      List.flatMap_eq_nil_iff]
    intro c member
    refine filterMap_own_of_inner ?_ within
      (Nat.lt_trans (Node.sizeOf_of_mem_children member) within)
    rw [enclosingClass?_concat, if_pos class']
  · have first : ownProperty? owner (above, n) =
        if n.kind = "assignment" then selfProperty? n else none := by
      simp [ownProperty?, isOwn, here]
    rw [if_neg class', first]
    congr 1
    · split <;> rfl
    · refine List.flatMap_congr (fun c member => ?_)
      have less := Node.sizeOf_of_mem_children member
      refine selfProperties_eq_own ?_ (Nat.lt_trans less within)
      rw [enclosingClass?_concat, if_neg class', here]
termination_by sizeOf n

theorem selfPropertiesIn_body {body : Node} (kind : isClass owner = true)
    (found : owner.child? "body" = some body) (plain : isClass body = false) :
    selfPropertiesIn body.children = (ownAssignments owner body).filterMap selfProperty? := by
  rw [selfPropertiesIn_eq, filterMap_ownAssignments]
  refine List.flatMap_congr (fun n member => ?_)
  have smaller : sizeOf n < sizeOf owner :=
    Nat.lt_trans (Node.sizeOf_of_mem_children member) (Node.sizeOf_of_child? found)
  refine selfProperties_eq_own ?_ smaller
  simp [enclosingClass?, plain, kind]

end Walk

/-! ## The properties of a class -/

theorem name_foldl_addProperty (e : EntityToken) (ps : List PropertyToken) :
    (ps.foldl EntityToken.addProperty e).name = e.name := by
  have same (e : EntityToken) (p : PropertyToken) : (e.addProperty p).name = e.name := rfl
  exact foldl_keeps EntityToken.name same e ps

theorem name_foldl_addMember (e : EntityToken) (ns : List Node) :
    (ns.foldl addMember e).name = e.name := by
  refine foldl_keeps EntityToken.name (fun e n => ?_) e ns
  unfold addMember
  dsimp only
  split
  · split <;> rfl
  · have same (e : EntityToken) (v : VarToken) : (e.addProperty
        { toVarToken := { v with isStatic := true } }).name = e.name := rfl
    exact foldl_keeps EntityToken.name same e _
  · rfl

theorem properties_foldl_addProperty (e : EntityToken) (ps : List PropertyToken) :
    (ps.foldl EntityToken.addProperty e).properties =
      ps.foldl (insertNew (·.name)) e.properties := by
  induction ps generalizing e with
  | nil => rfl
  | cons p ps ih => rw [List.foldl_cons, List.foldl_cons, ih, EntityToken.addProperty]

theorem properties_addMember (e : EntityToken) (n : Node) :
    (addMember e n).properties = (classAttributes n).foldl (insertNew (·.name)) e.properties := by
  unfold addMember classAttributes
  dsimp only
  split
  · next kind =>
    rw [if_neg (by rw [kind]; decide)]
    split <;> rfl
  · next kind =>
    rw [if_pos kind, ← properties_foldl_addProperty, List.foldl_map]
  · next other =>
    rw [if_neg other]
    rfl

theorem properties_foldl_addMember (e : EntityToken) (ns : List Node) :
    (ns.foldl addMember e).properties =
      (ns.flatMap classAttributes).foldl (insertNew (·.name)) e.properties := by
  induction ns generalizing e with
  | nil => rfl
  | cons n ns ih => rw [List.foldl_cons, ih, properties_addMember, List.flatMap_cons,
      List.foldl_append]

theorem isStatic_of_mem_classAttributes {n : Node} {p : PropertyToken}
    (member : p ∈ classAttributes n) : p.isStatic = true := by
  unfold classAttributes at member
  split at member
  · obtain ⟨v, -, rfl⟩ := List.mem_map.1 member
    rfl
  · cases member

theorem isStatic_of_selfProperty? {n : Node} {p : PropertyToken} (made : selfProperty? n = some p) :
    p.isStatic = false := by
  simp only [selfProperty?, Option.bind_eq_bind, Option.bind_eq_some_iff] at made
  obtain ⟨left, -, object, -, name, -, own⟩ := made
  split at own
  · cases own
    rfl
  · cases own

/-- The properties of a class are what its body assigns, and then what its methods assign, the
first of each name. -/
theorem properties_class? {c name body : Node} (named : c.child? "name" = some name)
    (found : c.child? "body" = some body) (kind : isClass c = true)
    (plain : isClass body = false) : ∃ e, class? c = some e ∧ e.name = name.text ∧
      e.properties = firsts (·.name) (body.named.flatMap classAttributes ++
        (ownAssignments c body).filterMap selfProperty?) := by
  refine ⟨_, by rw [class?, named, Option.map_some], ?_, ?_⟩
  · simp only [found]
    rw [name_foldl_addProperty, name_foldl_addMember]
  · simp only [found]
    rw [properties_foldl_addProperty, properties_foldl_addMember,
      selfPropertiesIn_body kind found plain, ← List.foldl_append]
    exact foldl_insertNew_nil _ _

/-! ## Names -/

theorem selfName?_eq_some_iff {x name : Node} : selfName? x = some name ↔ AssignsSelf x name := by
  constructor
  · intro named
    unfold selfName? at named
    split at named
    · next kind =>
      obtain ⟨left, ofLeft, named⟩ := Option.bind_eq_some_iff.1 named
      unfold attributeOfSelf? at named
      split at named
      · next object ofObject =>
        split at named
        · next shape =>
          exact ⟨kind, left, object, ofLeft, shape.1, ofObject, shape.2.1, shape.2.2, named⟩
        · cases named
      · cases named
    · cases named
  · rintro ⟨kind, left, object, ofLeft, dotted, ofObject, identifier, isSelf, named⟩
    simp [selfName?, kind, ofLeft, attributeOfSelf?, ofObject, dotted, identifier, isSelf, named]

theorem selfProperty?_place {x : Node} (kind : x.kind = "assignment") :
    (selfProperty? x).map (fun p => (p.name, p.span)) =
      (selfName? x).map (fun n => (n.text, some n.span)) := by
  rw [selfProperty?, selfName?, if_pos kind]
  cases x.child? "left" with
  | none => rfl
  | some left =>
    cases ofObject : left.child? "object" with
    | none => simp [attributeOfSelf?, ofObject]
    | some object =>
      cases ofName : left.child? "attribute" with
      | none => simp [attributeOfSelf?, ofObject, ofName]
      | some name =>
        by_cases dotted : left.kind = "attribute" <;>
        by_cases identifier : object.kind = "identifier" <;>
        by_cases isSelf : object.text = "self" <;>
        simp [attributeOfSelf?, ofObject, ofName, dotted, identifier, isSelf]

theorem map_classAttributes (body : Node) :
    (body.named.flatMap classAttributes).map (·.name) = (classNames body).map Node.text := by
  rw [classNames, List.flatMap_map, List.map_flatMap, List.map_flatMap]
  congr 1
  funext n
  unfold classAttributes
  split
  · rw [assignments, List.map_map, List.map_filterMap, List.map_filterMap]
    congr 1
    funext assign
    cases assign.child? "left" with
    | none => rfl
    | some left =>
      by_cases kind : left.kind = "identifier"
      · simp [kind]
      · simp [kind]
  · rfl

theorem filter_isStatic_firsts {own added : List PropertyToken}
    (static : ∀ p ∈ own, p.isStatic = true) (plain : ∀ p ∈ added, p.isStatic = false) :
    (firsts (·.name) (own ++ added)).filter (fun p => !p.isStatic) =
      (firsts (·.name) added).filter (fun p => p.name ∉ own.map (·.name)) := by
  have none : (firsts (·.name) own).filter (fun p => !p.isStatic) = [] := by
    refine List.filter_eq_nil_iff.2 (fun p member => ?_)
    rw [static p (mem_of_mem_firsts member)]
    decide
  rw [firsts_append, List.filter_append, none, List.nil_append, List.filter_eq_self]
  intro p member
  rw [plain p (mem_of_mem_firsts (List.mem_filter.1 member).1)]
  rfl

theorem map_filter_firsts {α β : Type} {key : α → String} (f : α → String × β)
    (same : ∀ a, (f a).1 = key a) (as : List α) (taken : List String) :
    ((firsts key as).filter (fun a => key a ∉ taken)).map f =
      (firsts (·.1) (as.map f)).filter (fun x => x.1 ∉ taken) := by
  obtain rfl : key = fun a => (f a).1 := funext (fun a => (same a).symm)
  rw [firsts_map, List.filter_map]
  rfl

/-! ## The classes of a document -/

theorem classes_addStatement (t : TokenTree) (n : Node) :
    (addStatement t n).classes =
      (([(undecorated n).2].filter isClass).filterMap class?).foldl (insertNew (·.name))
        t.classes := by
  have same (t : TokenTree) (v : VarToken) : (t.addVariable v).classes = t.classes := rfl
  unfold addStatement
  dsimp only
  split
  · next kind =>
    have own : isClass (undecorated n).2 = true := beq_iff_eq.2 kind
    rw [List.filter_cons_of_pos own, List.filter_nil, List.filterMap_cons]
    cases class? (undecorated n).2 <;> rfl
  all_goals
    have other : isClass (undecorated n).2 = false := by simp_all [isClass]
    rw [List.filter_cons_of_neg (by rw [other]; decide), List.filter_nil, List.filterMap_nil,
      List.foldl_nil]
  · split <;> rfl
  · exact foldl_keeps TokenTree.classes same t _

theorem classes_foldl_addStatement (t : TokenTree) (ns : List Node) :
    (ns.foldl addStatement t).classes =
      (((ns.map (fun n => (undecorated n).2)).filter isClass).filterMap class?).foldl
        (insertNew (·.name)) t.classes := by
  induction ns generalizing t with
  | nil => rfl
  | cons n ns ih =>
    rw [List.foldl_cons, ih, classes_addStatement, ← List.foldl_append, ← List.filterMap_append,
      ← List.filter_append, List.map_cons, List.singleton_append]

section Documents

variable {text : String} {root c body : Node}

theorem has_of_mem_topClasses (member : c ∈ topClasses root) : ∃ n ∈ root.children, n.Has c := by
  obtain ⟨n, there, rfl⟩ := List.mem_map.1 (List.mem_filter.1 member).1
  refine ⟨n, Node.mem_children_of_mem_named there, ?_⟩
  unfold undecorated
  split
  · cases found : n.child? "definition" with
    | none => exact .self
    | some definition => exact .child (Node.mem_children_of_child? found)
  · exact .self

/-- The instance properties of a class at the top of a document are the names `n` in assignments
`self.n = …` below its body whose innermost class it is, the first of each name and where it
stands, but for those that the class body has assigned. Every tree that the grammar makes of a
text has classes of that form. -/
theorem instance_properties_of_document (text : String) (root : Node) :
    (treeOf text root).classes = firsts (·.name) ((topClasses root).filterMap class?) ∧
    (∀ c ∈ topClasses root, ∀ name body, c.child? "name" = some name →
      c.child? "body" = some body → isClass body = false →
        ∃ e, class? c = some e ∧ e.name = name.text ∧
          (e.properties.filter (fun p => !p.isStatic)).map (fun p => (p.name, p.span)) =
            ((firsts Node.text ((ownAssignments c body).filterMap selfName?)).filter
              (fun n => n.text ∉ (classNames body).map Node.text)).map
                (fun n => (n.text, some n.span))) ∧
    (∀ x name, selfName? x = some name ↔ AssignsSelf x name) ∧
    (Grammar.Python.read? text.toList = some root → tree? text = some (treeOf text root) ∧
      ∀ c ∈ topClasses root, (∃ name, c.child? "name" = some name) ∧
        ∀ body, c.child? "body" = some body → isClass body = false) := by
  refine ⟨?classes, ?properties, fun _ _ => selfName?_eq_some_iff, ?documents⟩
  case classes =>
    have same (t : TokenTree) (i : ImportToken) : (t.addImport i).classes = t.classes := rfl
    rw [treeOf, classes_foldl_addStatement, foldl_keeps TokenTree.classes same]
    exact foldl_insertNew_nil _ _
  case properties =>
    intro c member name body named found plain
    obtain ⟨e, made, called, properties⟩ :=
      properties_class? named found (List.mem_filter.1 member).2 plain
    refine ⟨e, made, called, ?_⟩
    have kinds : ∀ x ∈ ownAssignments c body, x.kind = "assignment" := by
      intro x own
      obtain ⟨y, among, rfl⟩ := List.mem_map.1 own
      exact beq_iff_eq.1 (Bool.and_eq_true_iff.1 (List.mem_filter.1 among).2).1
    have places : ((ownAssignments c body).filterMap selfProperty?).map
        (fun p => (p.name, p.span)) = ((ownAssignments c body).filterMap selfName?).map
          (fun n => (n.text, some n.span)) := by
      rw [List.map_filterMap, List.map_filterMap]
      exact List.filterMap_congr (fun x own => selfProperty?_place (kinds x own))
    rw [properties, filter_isStatic_firsts (fun p among => ?_) (fun p among => ?_)]
    · rw [map_classAttributes, map_filter_firsts _ (fun _ => rfl), places,
        ← map_filter_firsts _ (fun _ => rfl)]
    · obtain ⟨n, -, own⟩ := List.mem_flatMap.1 among
      exact isStatic_of_mem_classAttributes own
    · obtain ⟨n, -, own⟩ := List.mem_filterMap.1 among
      exact isStatic_of_selfProperty? own
  case documents =>
    intro read
    refine ⟨by rw [tree?, read, Option.map_some], fun c member => ?_⟩
    obtain ⟨n, there, has⟩ := has_of_mem_topClasses member
    obtain ⟨⟨x, child, role⟩, block⟩ :=
      isWhole_of_read? read there has (beq_iff_eq.1 (List.mem_filter.1 member).2)
    refine ⟨Option.isSome_iff_exists.1 (List.find?_isSome.2 ⟨x, child, beq_iff_eq.2 role⟩), ?_⟩
    intro body found
    have role : body.field = some "body" := by simpa using List.find?_some found
    rw [isClass, block body (Node.mem_children_of_child? found) role]
    decide

end Documents

/-- A class with another in one of its methods. -/
def shapesText : String :=
  "class Shape:\n" ++
  "    kind = 1\n" ++
  "    def __init__(self):\n" ++
  "        self.area = self.side = 0\n" ++
  "        self.kind = 2\n" ++
  "        class Part:\n" ++
  "            def __init__(self):\n" ++
  "                self.weight = 1\n" ++
  "        if True:\n" ++
  "            self.area = 3\n"

theorem instance_properties_of_shapes :
    ∃ root c name body e, Grammar.Python.read? shapesText.toList = some root ∧
      topClasses root = [c] ∧ c.child? "name" = some name ∧ c.child? "body" = some body ∧
      isClass body = false ∧ class? c = some e ∧ e.name = "Shape" ∧
      ((ownAssignments c body).filterMap selfName?).map Node.text =
        ["area", "side", "kind", "area"] ∧
      (classNames body).map Node.text = ["kind"] ∧
      (e.properties.filter (fun p => !p.isStatic)).map (·.name) = ["area", "side"] := by
  have shape : (Grammar.Python.read? shapesText.toList).map (fun root =>
      (topClasses root).map (fun c => ((c.child? "name").map Node.text,
        (c.child? "body").map (fun body =>
          (((ownAssignments c body).filterMap selfName?).map Node.text,
            (classNames body).map Node.text))))) =
      some [(some "Shape", some (["area", "side", "kind", "area"], ["kind"]))] := by
    decide +kernel
  obtain ⟨root, read, classes⟩ := Option.map_eq_some_iff.1 shape
  obtain ⟨c, only, parts⟩ := List.map_eq_singleton_iff.1 classes
  obtain ⟨ofName, ofBody⟩ := Prod.mk.inj parts
  obtain ⟨name, named, called⟩ := Option.map_eq_some_iff.1 ofName
  obtain ⟨body, found, names⟩ := Option.map_eq_some_iff.1 ofBody
  obtain ⟨own, taken⟩ := Prod.mk.inj names
  have top : c ∈ topClasses root := by simp [only]
  obtain ⟨-, properties, -, documents⟩ := instance_properties_of_document shapesText root
  have plain := ((documents read).2 c top).2 body found
  obtain ⟨e, made, ofClass, listed⟩ := properties c top name body named found plain
  refine ⟨root, c, name, body, e, read, only, named, found, plain, made, ofClass.trans called,
    own, taken, ?_⟩
  have listed := congrArg (List.map Prod.fst) listed
  rw [List.map_map, List.map_map, taken] at listed
  have keys : firsts Node.text ((ownAssignments c body).filterMap selfName?) =
      firsts (fun n => id (Node.text n)) ((ownAssignments c body).filterMap selfName?) := rfl
  refine listed.trans ?_
  show (List.filter ((fun t => decide (t ∉ ["kind"])) ∘ Node.text) _).map Node.text = _
  rw [← List.filter_map, keys, ← firsts_map, own]
  decide

end CodeOutline.Analysis.Python
