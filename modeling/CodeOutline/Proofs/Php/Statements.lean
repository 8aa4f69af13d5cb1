import CodeOutline.Proofs.Analysis.Spaces
import CodeOutline.Proofs.Syntax.Shapes
import CodeOutline.Proofs.Token.Placed

/-!
What the statements of a PHP document add to its outline. Everything that an outline shows with a
value and every function and method in it was made by one of the statements that the walk comes to,
under the imports of the statements before that one.
-/

set_option autoImplicit false

namespace CodeOutline

open EntityToken (insertNew)

/-- What holds of the constants and properties of an entity, and what of its methods. -/
structure EntityToken.Each (P : VarToken → Prop) (Q : MethodToken → Prop) (e : EntityToken) :
    Prop where
  constants : ∀ c ∈ e.constants, P c
  properties : ∀ p ∈ e.properties, P p.toVarToken
  methods : ∀ m ∈ e.methods, Q m

/-- What holds of the variables of a tree and of its constants and properties, and what of its
functions and methods. -/
structure TokenTree.Each (P : VarToken → Prop) (Q : MethodToken → Prop) (t : TokenTree) :
    Prop where
  vars : ∀ v ∈ t.vars, P v
  functions : ∀ m ∈ t.functions, Q m
  entities : ∀ kind, ∀ e ∈ t.entitiesOf kind, e.Each P Q

variable {P P' : VarToken → Prop} {Q Q' : MethodToken → Prop}

namespace EntityToken.Each

variable {e : EntityToken} (each : e.Each P Q)

include each

theorem imp (ofVar : ∀ v, P v → P' v) (ofMethod : ∀ m, Q m → Q' m) : e.Each P' Q' where
  constants c member := ofVar c (each.constants c member)
  properties p member := ofVar _ (each.properties p member)
  methods m member := ofMethod m (each.methods m member)

theorem addConstant {c : VarToken} (new : P c) : (e.addConstant c).Each P Q :=
  { each with constants := forall_insertNew each.constants new }

theorem addProperty {p : PropertyToken} (new : P p.toVarToken) : (e.addProperty p).Each P Q :=
  { each with properties := forall_insertNew each.properties new }

theorem addMethod {m : MethodToken} (new : Q m) : (e.addMethod m).Each P Q :=
  { each with methods := forall_insertNew each.methods new }

theorem addTrait (used : EntityToken) : (e.addTrait used).Each P Q := { each with }

theorem foldl {α : Type} {f : EntityToken → α → EntityToken} {as : List α}
    (step : ∀ {e : EntityToken}, e.Each P Q → ∀ a ∈ as, (f e a).Each P Q) :
    (as.foldl f e).Each P Q :=
  List.foldlRecOn as f each (fun _ each a member => step each a member)

end EntityToken.Each

namespace TokenTree.Each

variable {t t' : TokenTree}

theorem empty : TokenTree.empty.Each P Q :=
  ⟨nofun, nofun, fun kind => by cases kind <;> exact nofun⟩

variable (each : t.Each P Q)

include each

theorem imp (ofVar : ∀ v, P v → P' v) (ofMethod : ∀ m, Q m → Q' m) : t.Each P' Q' where
  vars v member := ofVar v (each.vars v member)
  functions m member := ofMethod m (each.functions m member)
  entities kind e member := (each.entities kind e member).imp ofVar ofMethod

theorem congr (vars : t'.vars = t.vars) (functions : t'.functions = t.functions)
    (entities : ∀ kind, t'.entitiesOf kind = t.entitiesOf kind) : t'.Each P Q where
  vars := vars ▸ each.vars
  functions := functions ▸ each.functions
  entities kind := entities kind ▸ each.entities kind

theorem addImport (i : ImportToken) : (t.addImport i).Each P Q :=
  each.congr rfl rfl (fun kind => by cases kind <;> rfl)

theorem setStrict (b : Bool) : (t.setStrict b).Each P Q :=
  each.congr rfl rfl (fun kind => by cases kind <;> rfl)

theorem setSpace (ns : String) : (t.setSpace ns).Each P Q := by
  obtain ⟨space, changed⟩ := t.setSpace_frame ns
  rw [changed]
  exact each.congr rfl rfl (fun kind => by cases kind <;> rfl)

theorem addVariable {v : VarToken} (new : P v) : (t.addVariable v).Each P Q where
  vars := forall_insertNew each.vars new
  functions := each.functions
  entities kind := by
    have same : (t.addVariable v).entitiesOf kind = t.entitiesOf kind := by cases kind <;> rfl
    rw [same]
    exact each.entities kind

theorem addFunction {m : MethodToken} (new : Q m) : (t.addFunction m).Each P Q where
  vars := each.vars
  functions := forall_insertNew each.functions new
  entities kind := by
    have same : (t.addFunction m).entitiesOf kind = t.entitiesOf kind := by cases kind <;> rfl
    rw [same]
    exact each.entities kind

theorem addEntity {kind : EntityKind} {e : EntityToken} (new : e.Each P Q) :
    (t.addEntity kind e).Each P Q where
  vars := by cases kind <;> exact each.vars
  functions := by cases kind <;> exact each.functions
  entities k := by
    rw [TokenTree.entitiesOf_addEntity]
    split
    · exact forall_insertNew (each.entities k) new
    · exact each.entities k

end TokenTree.Each

namespace Analysis.Php

open Syntax (Node)

/-! ## Walks statement by statement -/

def advance (position : NamespacePosition) (w : Walk) (n : Node) : Walk :=
  if isSpace n then enterSpace w n else own position w n

theorem tree_visit (position : NamespacePosition) (w : Walk) (n : Node) :
    (visit position w n).tree =
      (visitAll position (advance position w n) (entered n)).tree := by
  unfold advance
  cases space : isSpace n with
  | false => rw [visit_of_other position w space]; rfl
  | true =>
    have kind : n.kind = "namespace_definition" := by simpa [isSpace] using space
    rw [visit_of_space position w space, entered, kind, if_pos rfl]
    dsimp only
    split
    · rfl
    · rfl

/-- The statements that the walk comes to, in the order of the source. -/
def statements (file : List Node) : List Node := file.flatMap descent.all

section Runs

variable {position : NamespacePosition} {Inv : List Node → TokenTree → Prop}

theorem visitAll_run {ns : List Node}
    (each : ∀ n ∈ ns, ∀ before w, Inv before w.tree →
      Inv (before ++ descent.all n) (visit position w n).tree)
    (before : List Node) (w : Walk) (kept : Inv before w.tree) :
    Inv (before ++ ns.flatMap descent.all) (visitAll position w ns).tree := by
  induction ns generalizing before w with
  | nil => rwa [visitAll, List.flatMap_nil, List.append_nil]
  | cons n ns ih =>
    obtain ⟨first, later⟩ := List.forall_mem_cons.1 each
    rw [visitAll, List.flatMap_cons, ← List.append_assoc]
    exact ih later _ _ (first before w kept)

theorem visit_run (step : ∀ before w n, Inv before w.tree →
      Inv (before ++ [n]) (advance position w n).tree)
    (n : Node) (before : List Node) (w : Walk) (kept : Inv before w.tree) :
    Inv (before ++ descent.all n) (visit position w n).tree := by
  rw [tree_visit, descent.all_eq, List.append_cons]
  refine visitAll_run (fun c member before w kept => ?_) _ _ (step before w n kept)
  have := sizeOf_of_mem_entered member
  exact visit_run step c before w kept
termination_by sizeOf n

end Runs

/-! ## Imports -/

def fore? (n : Node) : Option String :=
  (n.named.find? (fun c => c.kind == "namespace_name" || c.kind == "namespace_prefix")).map
    (fun c => Text.dropRight (· == '\\') (dropSlashes c.text))

def clausesOf (part : Node) : List Node :=
  match part.kind with
  | "namespace_use_clause" => [part]
  | "namespace_use_group" => part.named.filter (fun c => Text.startsWith c.kind "namespace_use")
  | _ => []

def clauses (n : Node) : List Node :=
  if n.kind = "namespace_use_declaration" then n.named.flatMap clausesOf else []

/-- The import of one clause. -/
def import? (fore : Option String) (clause : Node) : Option ImportToken :=
  ((clause.children.takeWhile (·.kind != "as")).find? (fun c => isNameKind c.kind)).map
    (fun name =>
      let own := dropSlashes name.text
      { name := match fore with
          | some p => p ++ separator ++ own
          | none => own
        span := some name.span
        localName := (((clause.children.dropWhile (·.kind != "as")).filter
          (fun c => isNameKind c.kind)).getLast?).map Node.text })

/-- The imports of a statement, clause by clause. -/
def importsIn (n : Node) : List ImportToken := (clauses n).filterMap (import? (fore? n))

/-- The imports that statements leave in a tree: the first of each name. -/
def importsOf (ns : List Node) : List ImportToken := firsts (·.name) (ns.flatMap importsIn)

theorem importsOf_concat (ns : List Node) (n : Node) :
    importsOf (ns ++ [n]) = (importsIn n).foldl (insertNew (·.name)) (importsOf ns) := by
  rw [importsOf, importsOf, ← foldl_insertNew_nil, ← foldl_insertNew_nil, List.flatMap_append,
    List.foldl_append, List.flatMap_singleton]

theorem addClause_eq (fore : Option String) (t : TokenTree) (clause : Node) :
    addClause fore t clause = (import? fore clause).toList.foldl TokenTree.addImport t := by
  unfold addClause import?
  dsimp only
  split
  · next unnamed => rw [unnamed]; rfl
  · next name named => rw [named]; rfl

theorem foldl_addClause (fore : Option String) (t : TokenTree) (cs : List Node) :
    cs.foldl (addClause fore) t = (cs.filterMap (import? fore)).foldl TokenTree.addImport t := by
  rw [List.filterMap_eq_flatMap_toList, List.foldl_flatMap]
  exact congrArg (List.foldl · t cs) (funext₂ (addClause_eq fore))

theorem clausesOf_of_other {part : Node} (single : part.kind ≠ "namespace_use_clause")
    (group : part.kind ≠ "namespace_use_group") : clausesOf part = [] := by
  unfold clausesOf
  split
  · next same => exact absurd same single
  · next same => exact absurd same group
  · rfl

theorem addUse_eq (t : TokenTree) {n : Node} (kind : n.kind = "namespace_use_declaration") :
    addUse t n = (importsIn n).foldl TokenTree.addImport t := by
  rw [importsIn, clauses, if_pos kind, ← foldl_addClause, List.foldl_flatMap]
  refine congrArg (List.foldl · t n.named) (funext₂ fun t part => ?_)
  by_cases single : part.kind = "namespace_use_clause"
  · rw [clausesOf, single]
    rfl
  by_cases group : part.kind = "namespace_use_group"
  · rw [clausesOf, group]
    rfl
  rw [clausesOf_of_other single group]
  split
  · next same => exact absurd same single
  · next same => exact absurd same group
  · rfl

theorem imports_addImports (t : TokenTree) (is : List ImportToken) :
    (is.foldl TokenTree.addImport t).imports = is.foldl (insertNew (·.name)) t.imports := by
  induction is generalizing t with
  | nil => rfl
  | cons i is ih => exact ih (t.addImport i)

theorem importsIn_of_other {n : Node} (other : n.kind ≠ "namespace_use_declaration") :
    importsIn n = [] := by
  rw [importsIn, clauses, if_neg other, List.filterMap_nil]

theorem imports_advance (position : NamespacePosition) (w : Walk) (n : Node) :
    (advance position w n).tree.imports =
      (importsIn n).foldl (insertNew (·.name)) w.tree.imports := by
  have other {t : TokenTree} (kind : n.kind ≠ "namespace_use_declaration")
      (same : t.imports = w.tree.imports) :
      t.imports = (importsIn n).foldl (insertNew (·.name)) w.tree.imports := by
    rw [importsIn_of_other kind, List.foldl_nil, same]
  have entity (kind : EntityKind) :
      (addEntity position w kind n).tree.imports = w.tree.imports := by
    unfold addEntity
    split
    · rfl
    · cases kind <;> rfl
  unfold advance
  split
  · next space =>
    refine other (by rintro same; simp [isSpace, same] at space) ?_
    unfold enterSpace TokenTree.setSpace
    dsimp only
    split
    · split
      · split <;> rfl
      · rfl
    · rfl
  · unfold own
    split
    case h_1 kind => rw [addUse_eq _ kind, imports_addImports]
    case h_2 kind =>
      refine other (by rw [kind]; decide) ?_
      unfold addDeclare TokenTree.setStrict
      split
      · split
        · split <;> rfl
        · rfl
      · rfl
    case h_3 kind | h_4 kind | h_5 kind => exact other (by rw [kind]; decide) (entity _)
    case h_6 kind => exact other (by rw [kind]; decide) rfl
    case h_7 kind =>
      refine other (by rw [kind]; decide) ?_
      unfold addAssignment
      split
      · rfl
      · split
        · split <;> rfl
        · rfl
    case h_8 kind _ _ _ _ _ _ => exact other kind rfl

/-! ## What one statement makes -/

def ShowsValue (v : VarToken) (t : TokenTree) (n : Node) : Prop :=
  ∀ s ∈ v.value, ∃ x, n.Has x ∧ s = renderValue t 0 x

def isCallable (n : Node) : Bool :=
  n.kind == "function_definition" || n.kind == "method_declaration"

def IsDeclared (m : MethodToken) (t : TokenTree) (n : Node) : Prop :=
  ∃ d, n.Has d ∧ isCallable d = true ∧ ∃ isFree, m = callable t d isFree

variable {t : TokenTree} {n c : Node}

theorem has_of_mem_named (member : c ∈ n.named) : n.Has c :=
  .child (Node.mem_children_of_mem_named member)

theorem has_of_child? {role : String} (found : n.child? role = some c) : n.Has c :=
  .child (Node.mem_children_of_child? found)

theorem has_of_first? {kind : String} (found : n.first? kind = some c) : n.Has c :=
  has_of_mem_named (List.mem_of_find?_eq_some found)

theorem ShowsValue.of_map {v : VarToken} {value : Option Node}
    (shown : v.value = value.map (renderValue t 0)) (has : ∀ x ∈ value, n.Has x) :
    ShowsValue v t n := by
  intro s member
  rw [shown] at member
  obtain ⟨x, found, rfl⟩ := Option.map_eq_some_iff.1 member
  exact ⟨x, has x found, rfl⟩

theorem showsValue_constants : ∀ v ∈ constants t n, ShowsValue v t n := by
  intro v member
  obtain ⟨element, among, made⟩ := List.mem_filterMap.1 member
  have inner : n.Has element := has_of_mem_named (List.mem_filter.1 among).1
  split at made
  · cases made
  · next name rest parts =>
    cases made
    refine .of_map rfl (fun x found => inner.trans (has_of_mem_named ?_))
    rw [parts]
    exact List.mem_cons_of_mem _ (List.mem_of_mem_head? found)

theorem has_propertyDefault? (found : propertyDefault? n = some c) : n.Has c := by
  unfold propertyDefault? at found
  split at found
  · next value role =>
    cases found
    exact has_of_child? role
  · exact has_of_mem_named (List.mem_of_find?_eq_some found)

theorem showsValue_properties : ∀ p ∈ properties t n, ShowsValue p.toVarToken t n := by
  intro p member
  unfold properties at member
  dsimp only at member
  split at member
  · cases member
  · obtain ⟨element, among, made⟩ := List.mem_filterMap.1 member
    obtain ⟨name, -, rfl⟩ := Option.map_eq_some_iff.1 made
    have inner : n.Has element := has_of_mem_named (List.mem_filter.1 among).1
    exact .of_map rfl (fun x found => inner.trans (has_propertyDefault? found))

theorem showsValue_parameter? : ∀ a ∈ parameter? t n, ShowsValue a t n := by
  intro a made
  unfold parameter? at made
  split at made
  · cases made
  · obtain ⟨name, -, rfl⟩ := Option.map_eq_some_iff.1 made
    exact .of_map rfl (fun x found => has_of_child? found)

theorem showsValue_arguments (isFree : Bool) :
    ∀ a ∈ (callable t n isFree).arguments, ShowsValue a t n := by
  intro a member
  unfold callable at member
  dsimp only at member
  split at member
  · next parameters found =>
    obtain ⟨p, among, made⟩ := List.mem_filterMap.1 member
    intro s shown
    obtain ⟨x, has, rfl⟩ := showsValue_parameter? a made s shown
    exact ⟨x, (has_of_child? found).trans ((has_of_mem_named among).trans has), rfl⟩
  · cases member

theorem each_addMember {e : EntityToken} {member : Node} (has : n.Has member)
    (each : e.Each (ShowsValue · t n) (IsDeclared · t n)) :
    (addMember t e member).Each (ShowsValue · t n) (IsDeclared · t n) := by
  have further {v : VarToken} (shows_ : ShowsValue v t member) : ShowsValue v t n := by
    intro s shown
    obtain ⟨x, inner, rfl⟩ := shows_ s shown
    exact ⟨x, has.trans inner, rfl⟩
  unfold addMember
  split
  · exact each.foldl (fun each c among =>
      each.addConstant (further (showsValue_constants c among)))
  · exact each.foldl (fun each p among =>
      each.addProperty (further (showsValue_properties p among)))
  · next kind =>
    exact each.addMethod ⟨member, has, by rw [isCallable, kind]; rfl, false, rfl⟩
  · exact each.foldl (fun each u _ => each.addTrait _)
  · exact each

/-! ## What all statements make -/

def MadeBy (ns : List Node) (made : TokenTree → Node → Prop) : Prop :=
  ∃ before n t, (before, n) ∈ withBefore [] ns ∧ t.imports = importsOf before ∧ made t n

structure Made (ns : List Node) (t : TokenTree) : Prop where
  imports : t.imports = importsOf ns
  each : t.Each (fun v => MadeBy ns (ShowsValue v)) (fun m => MadeBy ns (IsDeclared m))

theorem MadeBy.more {ns : List Node} {made : TokenTree → Node → Prop} (by_ : MadeBy ns made)
    (n : Node) : MadeBy (ns ++ [n]) made := by
  obtain ⟨before, m, t, member, imports, own⟩ := by_
  refine ⟨before, m, t, ?_, imports, own⟩
  rw [withBefore_concat]
  exact List.mem_append_left _ member

theorem Made.madeBy {ns : List Node} {made : TokenTree → Node → Prop} (so : Made ns t)
    (own : made t n) : MadeBy (ns ++ [n]) made := by
  refine ⟨ns, n, t, ?_, so.imports, own⟩
  rw [withBefore_concat]
  exact List.mem_append_right _ (List.mem_singleton_self _)

theorem made_advance {position : NamespacePosition} {ns : List Node} {w : Walk} {n : Node}
    (so : Made ns w.tree) : Made (ns ++ [n]) (advance position w n).tree := by
  refine ⟨by rw [imports_advance, so.imports, importsOf_concat], ?_⟩
  have old := so.each.imp (fun v made => made.more n) (fun m made => made.more n)
  have entity (kind : EntityKind) : (addEntity position w kind n).tree.Each
      (fun v => MadeBy (ns ++ [n]) (ShowsValue v))
        (fun m => MadeBy (ns ++ [n]) (IsDeclared m)) := by
    unfold addEntity
    split
    · exact old
    · next name _ =>
      refine old.addEntity (EntityToken.Each.imp (P := (ShowsValue · w.tree n))
        (Q := (IsDeclared · w.tree n)) ?_ (fun v made => so.madeBy made)
        (fun m made => so.madeBy made))
      refine EntityToken.Each.foldl ⟨List.forall_mem_nil _, List.forall_mem_nil _,
        List.forall_mem_nil _⟩ (fun each member among => ?_)
      refine each_addMember ?_ each
      split at among
      · next body found => exact (has_of_child? found).trans (has_of_mem_named among)
      · cases among
  unfold advance
  split
  · unfold enterSpace
    dsimp only
    split
    · split
      · exact old.setSpace _
      · exact old
    · exact old
  · unfold own
    split
    case h_1 kind =>
      rw [addUse_eq w.tree kind]
      exact List.foldlRecOn _ _ old (fun _ each i _ => each.addImport i)
    case h_2 =>
      unfold addDeclare
      split
      · split
        · split <;> exact old.setStrict _
        · exact old
      · exact old
    case h_3 | h_4 | h_5 => exact entity _
    case h_6 kind =>
      refine old.addFunction (so.madeBy ⟨n, .self, ?_, true, rfl⟩)
      rw [isCallable, kind]
      rfl
    case h_7 =>
      unfold addAssignment
      split
      · exact old
      · next assign found =>
        split
        · next left right _ value =>
          split
          · have inside : ∀ x ∈ some right, n.Has x := by
              rintro x ⟨⟩
              exact (has_of_first? found).trans (has_of_child? value)
            exact old.addVariable (so.madeBy (ShowsValue.of_map (by rfl) inside))
          · exact old
        · exact old
    case h_8 => exact old

theorem made_of_tree? {text : String} {settings : LanguageSettings} {t : TokenTree}
    (shown : tree? text settings = some t) : ∃ root, Grammar.Php.read? text.toList = some root ∧
      Made (statements root.named) t := by
  obtain ⟨root, read, rfl⟩ := Option.map_eq_some_iff.1 shown
  refine ⟨root, read, ?_⟩
  have start : Made [] TokenTree.empty := ⟨rfl, .empty⟩
  exact @visitAll_run _ Made _ (fun n _ => visit_run (fun _ _ _ => made_advance) n) [] {} start

theorem mem_children_of_mem_entered (member : c ∈ entered n) : c ∈ n.children := by
  unfold entered at member
  split at member
  · split at member
    · exact member
    · cases member
  · exact member
  · cases member

theorem has_of_mem_all (n : Node) {x : Node} (member : x ∈ descent.all n) : n.Has x := by
  rw [descent.all_eq] at member
  rcases List.mem_cons.1 member with rfl | deeper
  · exact .self
  · obtain ⟨c, there, inside⟩ := List.mem_flatMap.1 deeper
    have := sizeOf_of_mem_entered there
    exact .inside (mem_children_of_mem_entered there) (has_of_mem_all c inside)
termination_by sizeOf n

theorem has_of_mem_statements {root x : Node} (member : x ∈ statements root.named) :
    root.Has x := by
  obtain ⟨n, among, inside⟩ := List.mem_flatMap.1 member
  exact (has_of_mem_named among).trans (has_of_mem_all n inside)

/-! ## What an outline shows -/

/-- The functions of an outline, and the methods of its entities. -/
def callables (t : TokenTree) : List MethodToken :=
  t.functions ++ t.entities.flatMap (fun (_, e) => e.methods)

/-- Everything in an outline that may have a value. -/
def valued (t : TokenTree) : List VarToken :=
  t.vars ++ (callables t).flatMap (·.arguments) ++
    t.entities.flatMap (fun (_, e) => e.constants ++ e.properties.map (·.toVarToken))

section Shown

variable {P : VarToken → Prop} {Q : MethodToken → Prop} (each : t.Each P Q)

include each

theorem forall_entities : ∀ e ∈ t.entities, e.2.Each P Q := by
  rintro ⟨kind, e⟩ member
  obtain ⟨k, -, among⟩ := List.mem_flatMap.1 member
  obtain ⟨e, there, same⟩ := List.mem_map.1 among
  obtain ⟨rfl, rfl⟩ := Prod.mk.inj same
  exact each.entities _ _ there

theorem forall_callables : ∀ m ∈ callables t, Q m :=
  List.forall_mem_append.2 ⟨each.functions, List.forall_mem_flatMap.2
    (fun e member => (forall_entities each e member).methods)⟩

theorem forall_valued (inner : ∀ m, Q m → ∀ a ∈ m.arguments, P a) : ∀ v ∈ valued t, P v := by
  refine List.forall_mem_append.2 ⟨List.forall_mem_append.2 ⟨each.vars, ?_⟩, ?_⟩
  · exact List.forall_mem_flatMap.2 (fun m member => inner m (forall_callables each m member))
  · refine List.forall_mem_flatMap.2 (fun e member => ?_)
    have own := forall_entities each e member
    exact List.forall_mem_append.2 ⟨own.constants, List.forall_mem_map.2 own.properties⟩

end Shown

theorem Made.valued {ns : List Node} (so : Made ns t) :
    ∀ v ∈ valued t, MadeBy ns (ShowsValue v) := by
  refine forall_valued so.each ?_
  rintro m ⟨before, n, t, member, imports, d, has, -, isFree, rfl⟩ a among
  refine ⟨before, n, t, member, imports, fun s value => ?_⟩
  obtain ⟨x, inside, rfl⟩ := showsValue_arguments isFree a among s value
  exact ⟨x, has.trans inside, rfl⟩

end Analysis.Php

end CodeOutline
