import CodeOutline.Proofs.Name.Splitting
import CodeOutline.Proofs.Related
import CodeOutline.Proofs.Scaffold.Lines

/-!
Source entities that lead to the same new file. Of its source a file can show the name and flags,
and the public members that the language does not call by itself: entities with the same face lead
to the same lines.
-/

set_option autoImplicit false

namespace CodeOutline

/-- The two entities look the same from outside: name, visibility and flags, and in the same
order the public constants, the public properties, and the public methods whose names do not
begin with two underscores. -/
structure EntityToken.SameFace (a b : EntityToken) : Prop where
  name : a.name = b.name
  visibility : a.visibility = b.visibility
  isAbstract : a.isAbstract = b.isAbstract
  isReadonly : a.isReadonly = b.isReadonly
  constants : a.constants.filter (·.visibility = .pub) = b.constants.filter (·.visibility = .pub)
  properties :
    a.properties.filter (·.visibility = .pub) = b.properties.filter (·.visibility = .pub)
  methods :
    a.methods.filter (fun m => m.visibility = .pub && !Text.startsWith m.name "__") =
      b.methods.filter (fun m => m.visibility = .pub && !Text.startsWith m.name "__")

theorem MethodToken.isMagic_eq (m : MethodToken) : m.isMagic = Text.startsWith m.name "__" := by
  have start : "__".toList = ['_', '_'] := rfl
  rw [isMagic, Text.startsWith, start]
  split
  · next rest letters => simp [letters, Text.dropStart?]
  · next other =>
    cases letters : m.name.toList with
    | nil => rfl
    | cons c cs =>
      cases cs with
      | nil => by_cases first : '_' = c <;> simp [Text.dropStart?, first]
      | cons d ds =>
        by_cases first : '_' = c
        · have second : '_' ≠ d := by
            rintro rfl
            exact other ds (by rw [letters, first])
          simp [Text.dropStart?, second]
        · simp [Text.dropStart?, first]

namespace Scaffold

variable {a b : EntityToken} (same : a.SameFace b) (target : String) (kind : EntityKind)
  (mode : Mode) (options : Options)

include same

theorem methods_of_sameFace : methods a mode = methods b mode := by
  have open_ (e : EntityToken) : methods e mode =
      (e.methods.filter (fun m => m.visibility = .pub && !Text.startsWith m.name "__")).filter
        (fun m => mode.hasBodies || !m.isStatic) := by
    rw [methods, List.filter_filter]
    refine List.filter_congr fun m _ => ?_
    rw [MethodToken.isMagic_eq, Bool.and_comm (mode.hasBodies || !m.isStatic)]
  rw [open_, open_, same.methods]

theorem publicOnly_of_sameFace : publicOnly a.constants = publicOnly b.constants :=
  same.constants

theorem implemented?_of_sameFace (separator : String) :
    implemented? a kind mode separator = implemented? b kind mode separator := by
  rw [implemented?, implemented?, same.name]

theorem sourceImport?_of_sameFace (separator : String) (space : Option String) :
    sourceImport? a separator space options = sourceImport? b separator space options := by
  rw [sourceImport?, sourceImport?, same.name]

theorem php_of_sameFace :
    Php.generate target a kind mode options = Php.generate target b kind mode options := by
  have heading (name : String) : Php.heading name a mode = Php.heading name b mode := by
    cases mode with
    | interface => rfl
    | implementation => rw [Php.heading, Php.heading, same.isReadonly, same.isAbstract]
  have lines : Php.methodLines a mode = Php.methodLines b mode := by
    rw [Php.methodLines, Php.methodLines, methods_of_sameFace same]
  simp only [Php.generate, heading, lines, publicOnly_of_sameFace same,
    implemented?_of_sameFace same, sourceImport?_of_sameFace same]

theorem java_of_sameFace :
    Java.generate target a kind mode options = Java.generate target b kind mode options := by
  have heading (name : String) : Java.heading name a mode = Java.heading name b mode := by
    rw [Java.heading, Java.heading, same.visibility, same.isReadonly, same.isAbstract]
  have lines : Java.methodLines a mode = Java.methodLines b mode := by
    rw [Java.methodLines, Java.methodLines, methods_of_sameFace same]
  simp only [Java.generate, heading, lines, publicOnly_of_sameFace same,
    implemented?_of_sameFace same, sourceImport?_of_sameFace same]

theorem script_of_sameFace :
    Script.generate target a kind mode options = Script.generate target b kind mode options := by
  have lines (indent : String) (typed : Bool) :
      Script.methodLines indent a mode typed = Script.methodLines indent b mode typed := by
    rw [Script.methodLines, Script.methodLines, methods_of_sameFace same]
  simp only [Script.generate, lines, same.properties, implemented?_of_sameFace same]

/-- Members that are private, protected or called by the language, accessors and used traits
leave no trace in a new file, wherever they stand. -/
theorem generate_of_sameFace (l : Language) :
    l.generate target a kind mode options = l.generate target b kind mode options := by
  cases l with
  | php => exact php_of_sameFace same target kind mode options
  | java => exact java_of_sameFace same target kind mode options
  | script => exact script_of_sameFace same target kind mode options

end Scaffold

/-- A cart with nothing but its public members. -/
def openCart : EntityToken where
  name := "Shop\\Cart"
  constants := [{ name := "LIMIT", value := some "10" }]
  properties := [{ name := "total", type := some "int" }]
  methods := [{ name := "add", type := some "void" }, { name := "clear", type := some "void" }]

/-- The same cart with members between and around them that are none of the user's business. -/
def crowdedCart : EntityToken where
  name := "Shop\\Cart"
  constants := [{ name := "KEY", visibility := .priv }, { name := "LIMIT", value := some "10" }]
  properties := [{ name := "total", type := some "int" }, { name := "items", visibility := .prot }]
  accessors := [{ name := "size" }]
  methods := [{ name := "__construct" }, { name := "add", type := some "void" },
    { name := "log", visibility := .priv }, { name := "clear", type := some "void" }]
  traits := [{ name := "Countable" }]

namespace Scaffold

theorem generate_of_sameFace_carts :
    openCart.SameFace crowdedCart ∧
      Language.java.generate "Basket" openCart .class .implementation {} =
        Language.java.generate "Basket" crowdedCart .class .implementation {} := by
  have same : openCart.SameFace crowdedCart :=
    ⟨rfl, rfl, rfl, rfl, by decide +kernel, by decide +kernel, by decide +kernel⟩
  exact ⟨same, generate_of_sameFace same "Basket" .class .implementation {} .java⟩

end Scaffold

end CodeOutline

/-!
One new file for all spellings of two names. The source entity may carry its namespace in its name
or leave it to the options, and so may the target; what is written depends on the names and the
namespaces alone.
-/

namespace CodeOutline.Scaffold

open Name (IsSimple IsSpace splitTarget)

/-- Where a target has its namespace: before the name, behind it, or in the options. -/
inductive Spelling
  | before | behind | aside
deriving DecidableEq, Repr

namespace Spelling

def target (separator name space : String) : Spelling → String
  | .before => space ++ separator ++ name
  | .behind => name ++ " : " ++ space
  | .aside => name

/-- The namespace of the options. -/
def space? (space : String) (fallback : Option String) : Spelling → Option String
  | .aside => some space
  | _ => fallback

end Spelling

section Target

variable {c : Char} {separator name space : String} (one : separator.toList = [c])
  (other : c ≠ ':') (simple : IsSimple separator name) (filled : name ≠ "")
  (proper : IsSpace space)

include one other simple filled proper

theorem Spelling.splitTarget_target (spelling : Spelling) (fallback : Option String) :
    splitTarget (spelling.target separator name space) separator
      (spelling.space? space fallback) = (name, some space) := by
  have written : Name.nonempty? (Text.trimChars space.toList) = some space := by
    simp [Text.trimChars_of_trim proper.trimmed, Name.nonempty?, proper.filled]
  cases spelling with
  | before =>
    have trimmed := Text.trim_between proper.trimmed proper.filled simple.trimmed filled separator
    have parts := Name.split_joined one (simple.outside c (by simp [one])) other simple.noColon
      proper.paired proper.filled
    simp [splitTarget, target, trimmed, parts, written]
  | behind =>
    have trimmed := Text.trim_between simple.trimmed filled proper.trimmed proper.filled " : "
    have blank : ∀ c ∈ [' '], Text.isBlank c = true := List.forall_mem_singleton.2 (by decide)
    have mark : " : ".toList = [' '] ++ ':' :: [' '] := by decide
    have parts := Name.split_marked mark blank blank simple.noColon (by simp) proper.filled
      simple.trimmed proper.trimmed separator
    simp [splitTarget, target, trimmed, parts, written]
  | aside => simp [splitTarget, target, space?, simple.trimmed, simple.split_self one, written]

end Target

section Parts

variable {separator x y : String} (source : EntityToken) {o : Options}
  (name : (Name.split x separator).1 = (Name.split y separator).1)
  (home : (Name.split x separator).2.orElse (fun _ => o.sourceSpace) =
    (Name.split y separator).2.orElse (fun _ => o.sourceSpace))

include name

private theorem implemented?_of_parts (kind : EntityKind) (mode : Mode) :
    implemented? { source with name := x } kind mode separator =
      implemented? { source with name := y } kind mode separator := by
  rw [implemented?, implemented?, Name.simple, Name.simple, name]

include home

private theorem sourceImport?_of_parts (fallback fallback' space : Option String) :
    sourceImport? { source with name := x } separator space { o with space := fallback } =
      sourceImport? { source with name := y } separator space { o with space := fallback' } := by
  simp only [sourceImport?, name, home]

end Parts

theorem generate_of_parts (l : Language) (source : EntityToken) (kind : EntityKind) (mode : Mode)
    {o : Options} {target target' x y : String} {space space' : Option String}
    (asked : splitTarget target l.separator space = splitTarget target' l.separator space')
    (name : (Name.split x l.separator).1 = (Name.split y l.separator).1)
    (home : (Name.split x l.separator).2.orElse (fun _ => o.sourceSpace) =
      (Name.split y l.separator).2.orElse (fun _ => o.sourceSpace)) :
    l.generate target { source with name := x } kind mode { o with space := space } =
      l.generate target' { source with name := y } kind mode { o with space := space' } := by
  have implemented := implemented?_of_parts source name kind mode
  have imported := sourceImport?_of_parts source name home space space'
  cases l with
  | php =>
    simp only [Language.separator] at asked implemented imported
    simp only [Language.generate, Php.generate, asked, implemented, imported]
    rfl
  | java =>
    simp only [Language.separator] at asked implemented imported
    simp only [Language.generate, Java.generate, asked, implemented, imported]
    rfl
  | script =>
    simp only [Language.separator] at asked implemented
    simp only [Language.generate, Script.generate, asked, implemented]
    rfl

theorem Language.exists_separator (l : Language) : ∃ c, l.separator.toList = [c] ∧ c ≠ ':' := by
  cases l with
  | php => exact ⟨'\\', by decide, by decide⟩
  | java | script => exact ⟨'.', by decide, by decide⟩

theorem documentName_of_parts (l : Language) {target target' : String}
    (asked : (splitTarget target l.separator none).1 = (splitTarget target' l.separator none).1)
    (mode : Mode) (extension : Option String) :
    l.documentName target mode extension = l.documentName target' mode extension := by
  cases l with
  | php =>
    simp only [Language.separator] at asked
    simp only [Language.documentName, Php.documentName, asked]
  | java =>
    simp only [Language.separator] at asked
    simp only [Language.documentName, Java.documentName, asked]
  | script =>
    simp only [Language.separator] at asked
    simp only [Language.documentName, Script.documentName, asked]

/-- The new file is the same, by its name and by its lines, for every spelling of the target and
for every written form of the source entity's name, if the options tell the namespace that the
form may leave out. -/
theorem generate_respelled (l : Language) (source : EntityToken) (kind : EntityKind) (mode : Mode)
    (extension : Option String) (o : Options) {name home target space : String}
    (name_simple : IsSimple l.separator name) (home_proper : IsSpace home)
    (home_told : o.sourceSpace = some home) (target_simple : IsSimple l.separator target)
    (filled : target ≠ "") (space_proper : IsSpace space) (s s' : Spelling)
    (p p' : NamespacePosition) :
    l.documentName (s.target l.separator target space) mode extension =
        l.documentName (s'.target l.separator target space) mode extension ∧
      l.generate (s.target l.separator target space)
          { source with name := Name.qualify name (some home) l.separator p } kind mode
          { o with space := s.space? space o.space } =
        l.generate (s'.target l.separator target space)
          { source with name := Name.qualify name (some home) l.separator p' } kind mode
          { o with space := s'.space? space o.space } := by
  obtain ⟨c, one, other⟩ := l.exists_separator
  have asked (s : Spelling) (fallback : Option String) :=
    s.splitTarget_target one other target_simple filled space_proper fallback
  have proper : ∀ ns ∈ some home, IsSpace ns := by simpa using home_proper
  have parts := name_simple.split_qualify one other proper
  have sides (p : NamespacePosition) :
      (if p = .none then none else some home).orElse (fun _ => o.sourceSpace) = some home := by
    rw [home_told]
    split <;> rfl
  constructor
  · have named (s : Spelling) :
        (splitTarget (s.target l.separator target space) l.separator none).1 = target := by
      rw [Name.splitTarget_fst _ _ none (s.space? space none), asked]
    exact documentName_of_parts l ((named s).trans (named s').symm) mode extension
  · refine generate_of_parts l source kind mode ((asked s _).trans (asked s' _).symm) ?_ ?_
    · rw [parts, parts]
    · rw [parts, parts, sides, sides]

theorem generate_respelled_cart :
    Language.php.documentName "Web\\Basket" .implementation none =
        Language.php.documentName "Basket" .implementation none ∧
      Language.php.generate "Web\\Basket" { name := "Shop\\Cart" } .interface .implementation
          { sourceSpace := some "Shop" } =
        Language.php.generate "Basket" { name := "Cart" } .interface .implementation
          { sourceSpace := some "Shop", space := some "Web" } := by
  have cart : IsSimple "\\" "Cart" := ⟨by decide, by simp, by decide⟩
  have basket : IsSimple "\\" "Basket" := ⟨by decide, by simp, by decide⟩
  have shop : IsSpace "Shop" := ⟨by decide, by decide, by decide⟩
  have web : IsSpace "Web" := ⟨by decide, by decide, by decide⟩
  exact generate_respelled .php { name := "" } .interface .implementation none
    { sourceSpace := some "Shop" } cart shop rfl basket (by decide) web .before .aside .full .none

end CodeOutline.Scaffold

/-!
A JavaScript class says nothing of types. Two entities whose properties and methods differ in their
types alone, in what may be written and in what may be left out, lead to the same lines, whatever
they are called and wherever they live.
-/

namespace CodeOutline

/-- One parameter, but for its type and for question marks behind its name. -/
structure VarToken.SameUntyped (v w : VarToken) : Prop where
  name : ∃ base i j, v.name.toList = base ++ List.replicate i '?' ∧
    w.name.toList = base ++ List.replicate j '?'
  rest : w = { v with name := w.name, type := w.type }

/-- One property, but for its type and for whether it is read-only. -/
structure PropertyToken.SameUntyped (p q : PropertyToken) : Prop where
  rest : q = { p with type := q.type, isReadonly := q.isReadonly }

/-- One method, but for its type and those of its arguments. -/
structure MethodToken.SameUntyped (m n : MethodToken) : Prop where
  arguments : List.Forall₂ VarToken.SameUntyped m.arguments n.arguments
  rest : n = { m with type := n.type, arguments := n.arguments }

/-- The same properties and the same methods, but for types. Nothing else of the entities is
compared, nor are their names. -/
structure EntityToken.SameUntyped (a b : EntityToken) : Prop where
  properties : List.Forall₂ PropertyToken.SameUntyped a.properties b.properties
  methods : List.Forall₂ MethodToken.SameUntyped a.methods b.methods

namespace Scaffold.Script

private theorem dropRight_replicate {s : String} {base : List Char} {i : Nat}
    (whole : s.toList = base ++ List.replicate i '?') :
    Text.dropRight (· == '?') s = Text.dropRight (· == '?') (String.ofList base) := by
  have marks : ∀ c ∈ List.replicate i '?', (c == '?') = true := by
    intro c member
    simp [List.eq_of_mem_replicate member]
  rw [Text.dropRight, Text.dropRight, whole, List.reverse_append, List.reverse_replicate,
    List.dropWhile_append_of_pos marks, String.toList_ofList]

private theorem typeNote_false (type : Option String) : typeNote false type = "" := rfl

theorem argument_of_sameUntyped {v w : VarToken} (same : v.SameUntyped w) :
    argument .implementation false v = argument .implementation false w := by
  obtain ⟨base, i, j, left, right⟩ := same.name
  have value : w.value = v.value := congrArg (·.value) same.rest
  simp only [argument, Bool.false_and, Bool.false_eq_true, if_false, typeNote_false, value,
    dropRight_replicate left, dropRight_replicate right]

theorem property_of_sameUntyped {p q : PropertyToken} (same : p.SameUntyped q) :
    property .implementation false p = property .implementation false q := by
  have name : q.name = p.name := congrArg (·.name) same.rest
  have value : q.value = p.value := congrArg (·.value) same.rest
  have isStatic : q.isStatic = p.isStatic := congrArg (·.isStatic) same.rest
  simp only [property, Bool.and_false, Bool.false_eq_true, if_false, typeNote_false, name, value,
    isStatic]

theorem signature_of_sameUntyped {m n : MethodToken} (same : m.SameUntyped n) :
    signature .implementation false m = signature .implementation false n := by
  have name : n.name = m.name := congrArg (·.name) same.rest
  have isStatic : n.isStatic = m.isStatic := congrArg (·.isStatic) same.rest
  have arguments := map_eq_of_forall₂ same.arguments fun _ _ => argument_of_sameUntyped
  simp only [signature, Bool.and_false, Bool.false_eq_true, if_false, typeNote_false, name,
    isStatic, arguments]

theorem methodLines_of_sameUntyped {a b : EntityToken} (same : a.SameUntyped b) (indent : String) :
    methodLines indent a .implementation false = methodLines indent b .implementation false := by
  have chosen : List.Forall₂ MethodToken.SameUntyped (methods a .implementation)
      (methods b .implementation) := by
    refine forall₂_filter same.methods fun m n alike => ?_
    have name : n.name = m.name := congrArg (·.name) alike.rest
    have visibility : n.visibility = m.visibility := congrArg (·.visibility) alike.rest
    simp only [MethodToken.isMagic, Mode.hasBodies, Bool.true_or, Bool.and_true, name, visibility]
  have kept (ms : List MethodToken) : ms.filter
      (fun m => Mode.implementation.hasBodies || m.name != "constructor") = ms :=
    List.filter_eq_self.2 fun _ _ => rfl
  rw [methodLines, methodLines, kept, kept,
    map_eq_of_forall₂ chosen fun _ _ => signature_of_sameUntyped]

/-- A JavaScript class is the same for entities that differ in types alone, for every name and
namespace of the source, every namespace of the target and every option but strict mode. -/
theorem generate_untyped {a b : EntityToken} (same : a.SameUntyped b) {o o' : Options}
    (strict : o.strict = o'.strict) (js : o.extension = some "js")
    (js' : o'.extension = some "js") {target target' : String}
    (named : (Name.splitTarget target separator none).1 =
      (Name.splitTarget target' separator none).1) (kind kind' : EntityKind) :
    Language.script.generate target a kind .implementation o =
      Language.script.generate target' b kind' .implementation o' := by
  have untyped : isTyped .implementation o = false := by simp [isTyped, Mode.hasBodies, js]
  have untyped' : isTyped .implementation o' = false := by simp [isTyped, Mode.hasBodies, js']
  -- Without types there is no namespace block, so nothing stands in front of the usual step.
  have lines := methodLines_of_sameUntyped same ("" ++ pad)
  have properties : (a.properties.filter (·.visibility = .pub)).map
      (fun p => "" ++ pad ++ property .implementation false p) =
      (b.properties.filter (·.visibility = .pub)).map
        (fun p => "" ++ pad ++ property .implementation false p) := by
    refine map_eq_of_forall₂ (forall₂_filter same.properties ?shown) ?written
    case shown =>
      intro p q alike
      have visibility : q.visibility = p.visibility := congrArg (·.visibility) alike.rest
      rw [visibility]
    case written =>
      intro p q alike
      rw [property_of_sameUntyped alike]
  have name : (Name.splitTarget target separator o.space).1 =
      (Name.splitTarget target' separator o'.space).1 := by
    rw [Name.splitTarget_fst _ _ o.space none, named, Name.splitTarget_fst _ _ none o'.space]
  simp only [Language.generate, Script.generate, untyped, untyped', name, strict,
    Bool.false_eq_true, if_false, Option.isSome_none, lines, properties]

end Scaffold.Script

/-- A cart that says what its values are. -/
def typedCart : EntityToken where
  name := "Shop.Cart"
  properties := [{ name := "total", type := some "number", value := some "0", isReadonly := true }]
  methods := [{ name := "add", type := some "void", arguments :=
    [{ name := "sku", type := some "string" }, { name := "count?", type := some "number" }] }]

/-- A cart that does not. -/
def plainCart : EntityToken where
  name := "Basket"
  properties := [{ name := "total", value := some "0" }]
  methods := [{ name := "add", arguments := [{ name := "sku" }, { name := "count" }] }]

namespace Scaffold.Script

theorem generate_untyped_carts :
    typedCart.SameUntyped plainCart ∧
      Language.script.generate "Shop.Basket" typedCart .interface .implementation
          { extension := some "js", sourceSpace := some "Shop" } =
        Language.script.generate "Basket : Web" plainCart .class .implementation
          { extension := some "js", spaceWord := "module" } := by
  have sku : VarToken.SameUntyped { name := "sku", type := some "string" } { name := "sku" } :=
    ⟨⟨"sku".toList, 0, 0, by decide, by decide⟩, rfl⟩
  have count : VarToken.SameUntyped { name := "count?", type := some "number" }
      { name := "count" } := ⟨⟨"count".toList, 1, 0, by decide, by decide⟩, rfl⟩
  have same : typedCart.SameUntyped plainCart :=
    ⟨.cons ⟨rfl⟩ .nil, .cons ⟨.cons sku (.cons count .nil), rfl⟩ .nil⟩
  refine ⟨same, generate_untyped same ?strict ?js ?js' ?named .interface .class⟩
  case strict => rfl
  case js => rfl
  case js' => rfl
  case named => decide

end Scaffold.Script

end CodeOutline
