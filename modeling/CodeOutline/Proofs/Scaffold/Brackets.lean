import CodeOutline.Proofs.Name.Splitting
import CodeOutline.Proofs.Scaffold.Lines
import CodeOutline.Proofs.Text.Brackets

/-!
The brackets of a new file. Every block that a line opens is closed by a later one, around lines
that are nested by themselves, so that the file is nested as far as the types and values in it are.
-/

set_option autoImplicit false

namespace CodeOutline

open Text (IsBare IsNested awaited)

/-! ## What is written of a source -/

/-- The name has one property, and the type and the value, where they are given, another. -/
structure VarToken.Texts (P Q : String → Prop) (v : VarToken) : Prop where
  name : P v.name
  type : ∀ t ∈ v.type, Q t
  value : ∀ x ∈ v.value, Q x

/-- So do the names, and so the types and values, of an entity and of all its constants,
properties, methods and arguments. -/
structure EntityToken.Texts (P Q : String → Prop) (e : EntityToken) : Prop where
  name : P e.name
  constants : ∀ c ∈ e.constants, c.Texts P Q
  properties : ∀ p ∈ e.properties, p.toVarToken.Texts P Q
  methods : ∀ m ∈ e.methods, m.toVarToken.Texts P Q
  arguments : ∀ m ∈ e.methods, ∀ a ∈ m.arguments, a.Texts P Q

theorem VarToken.Texts.imp {P Q R : String → Prop} {v : VarToken} (texts : v.Texts P Q)
    (weaker : ∀ s, Q s → R s) : v.Texts P R where
  name := texts.name
  type t given := weaker t (texts.type t given)
  value x given := weaker x (texts.value x given)

theorem EntityToken.Texts.imp {P Q R : String → Prop} {e : EntityToken} (texts : e.Texts P Q)
    (weaker : ∀ s, Q s → R s) : e.Texts P R where
  name := texts.name
  constants c member := (texts.constants c member).imp weaker
  properties p member := (texts.properties p member).imp weaker
  methods m member := (texts.methods m member).imp weaker
  arguments m member a among := (texts.arguments m member a among).imp weaker

namespace Scaffold

/-- The namespaces of the options and the word for a namespace block have the property. -/
structure Options.Texts (P : String → Prop) (o : Options) : Prop where
  space : ∀ ns ∈ o.space, P ns
  sourceSpace : ∀ ns ∈ o.sourceSpace, P ns
  spaceWord : P o.spaceWord

/-! ## Lines -/

def fileOf (lines : List String) : String := String.join (lines.map (· ++ "\n"))

def Nests (lines : List String) : Prop := IsNested (fileOf lines)

def Opens (lines : List String) : Prop := awaited [] (fileOf lines) = some ['\x7d']

theorem fileOf_append (a b : List String) : fileOf (a ++ b) = fileOf a ++ fileOf b := by
  rw [fileOf, List.map_append, String.join_append]
  rfl

theorem fileOf_singleton (s : String) : fileOf [s] = s ++ "\n" := by simp [fileOf]

section Lines

variable {a b o : List String} {s t indent foot statement : String} {groups : List (List String)}

theorem Nests.append (first : Nests a) (second : Nests b) : Nests (a ++ b) := by
  rw [Nests, fileOf_append]
  exact IsNested.append first second

theorem Nests.of_forall (each : ∀ s ∈ a, IsNested s) : Nests a := by
  refine IsNested.join ?_
  intro line member
  obtain ⟨s, there, rfl⟩ := List.mem_map.1 member
  exact (each s there).append (by decide)

theorem Nests.nil : Nests [] := .of_forall (List.forall_mem_nil _)

theorem Nests.single (nested : IsNested s) : Nests [s] :=
  .of_forall (List.forall_mem_singleton.2 nested)

theorem Nests.spaced (each : ∀ g ∈ groups, Nests g) : Nests (spaced groups) := by
  unfold Scaffold.spaced
  induction groups with
  | nil => exact .nil
  | cons first groups ih =>
    obtain ⟨here, later⟩ := List.forall_mem_cons.1 each
    cases groups with
    | nil => rwa [List.intercalate_singleton]
    | cons second groups =>
      rw [List.intercalate_cons_cons]
      exact (here.append (.single (by decide))).append (ih later)

theorem Nests.separate (first : Nests a) (second : Nests b) : Nests (separate a b) := by
  unfold Scaffold.separate
  split
  · exact first.append second
  · exact (first.append (.single (by decide))).append second

theorem opens_line (nested : IsNested s) : Opens [s ++ " \x7b"] := by
  rw [Opens, fileOf_singleton, String.append_assoc, Text.awaited_append, nested]
  rfl

theorem opens_below (nested : IsNested s) (blank : IsNested t) : Opens [s, t ++ "\x7b"] := by
  have lines : fileOf [s, t ++ "\x7b"] = s ++ "\n" ++ t ++ "\x7b\n" := by
    simp [fileOf, String.append_assoc]
  have front : awaited [] (s ++ "\n" ++ t) = some [] := (nested.append (by decide)).append blank
  rw [Opens, lines, Text.awaited_append, front]
  rfl

theorem Nests.block (opens : Opens o) (inner : Nests a) (blank : IsNested foot) :
    Nests (o ++ a ++ [foot ++ "\x7d"]) := by
  have closes : awaited ['\x7d'] (fileOf [foot ++ "\x7d"]) = some [] := by
    rw [fileOf_singleton, Text.awaited_append, Text.awaited_append, blank.awaited_eq]
    rfl
  rw [Nests, fileOf_append, fileOf_append]
  exact IsNested.enclose opens inner closes

theorem nests_blocks (blank : IsNested indent) (nested : IsNested statement)
    (each : ∀ o ∈ groups, Opens (o.map (indent ++ ·))) :
    Nests (blocks indent statement groups) := by
  refine .spaced ?_
  intro group member
  obtain ⟨o, there, rfl⟩ := List.mem_map.1 member
  have inner : Nests [indent ++ pad ++ statement] :=
    .single ((blank.append (by decide)).append nested)
  have whole := Nests.block (each o there) inner blank
  rwa [List.append_assoc] at whole

theorem nests_stubs (blank : IsNested indent) (each : ∀ s ∈ a, IsNested s) :
    Nests (stubs indent a) := by
  refine .of_forall ?_
  intro line member
  obtain ⟨s, there, rfl⟩ := List.mem_map.1 member
  exact (blank.append (each s there)).append (by decide)

end Lines

/-! ## What all languages write -/

section Parts

variable {source : EntityToken} {options : Options} {target separator : String}

theorem isNested_word {c : Prop} [Decidable c] {word : String} (nested : IsNested word) :
    IsNested (if c then word else "") := by
  split
  · exact nested
  · decide

theorem mem_of_typeShown? {type : Option String} {silent : List String} {t : String}
    (shown : typeShown? type silent = some t) : t ∈ type :=
  (Option.filter_eq_some_iff.1 shown).1

theorem mem_of_shown? {value : Option String} {x : String} (shown : Label.shown? value = some x) :
    x ∈ value :=
  (Option.filter_eq_some_iff.1 shown).1

theorem isBare_asked (bare : IsBare target) {space : Option String}
    (told : ∀ ns ∈ space, IsBare ns) (separator : String) :
    IsBare (Name.splitTarget target separator space).1 ∧
      ∀ ns ∈ (Name.splitTarget target separator space).2, IsBare ns := by
  have inside := Name.splitTarget_inside target separator space
  refine ⟨bare.of_subset inside.1.subset, fun ns asked => ?_⟩
  rcases inside.2 ns asked with own | ⟨other, fallback, own⟩
  · exact bare.of_subset own.subset
  · exact (told other fallback).of_subset own.subset

theorem isNested_implemented? (bare : IsBare source.name) {kind : EntityKind} {mode : Mode}
    {name : String} (told : implemented? source kind mode separator = some name) :
    IsNested name := by
  unfold implemented? at told
  split at told
  · rw [← Option.some.inj told]
    exact (bare.of_subset (Name.split_inside source.name separator).1.subset).isNested
  · cases told

theorem isNested_sourceImport? (bare : IsBare source.name) (told : options.Texts IsBare)
    (plain : IsNested separator) {space : Option String} {full : String}
    (imported : sourceImport? source separator space options = some full) : IsNested full := by
  have inside := Name.split_inside source.name separator
  simp only [sourceImport?] at imported
  split at imported
  case h_2 => cases imported
  next ns home =>
  split at imported
  · cases imported
  obtain rfl := Option.some.inj imported
  have bare_home : IsBare ns := by
    cases own : (Name.split source.name separator).2 with
    | none =>
      rw [own] at home
      exact told.sourceSpace ns home
    | some ns' =>
      rw [own] at home
      obtain rfl := Option.some.inj home
      exact bare.of_subset (inside.2 ns' own).subset
  exact (bare_home.isNested.append plain).append (bare.of_subset inside.1.subset).isNested

theorem isNested_implements (bare : IsBare source.name) (kind : EntityKind) (mode : Mode)
    (separator : String) :
    IsNested (match implemented? source kind mode separator with
      | some interface => " implements " ++ interface
      | none => "") := by
  split
  · next named => exact .append (by decide) (isNested_implemented? bare named)
  · decide

theorem nests_paragraph {o : Option String} {f : String → String}
    (each : ∀ x ∈ o, IsNested (f x)) :
    Nests (match o.map f with | some line => [line, ""] | none => []) := by
  cases o with
  | none => exact .nil
  | some x => exact (Nests.single (each x rfl)).append (.single (by decide : IsNested ""))

end Parts

variable {source : EntityToken} {mode : Mode} {options : Options}

/-! ## PHP -/

namespace Php

theorem isNested_argument {v : VarToken} (texts : v.Texts IsBare IsNested) :
    IsNested (argument v) := by
  have name : IsNested (String.ofList (v.name.toList.takeWhile (fun c => c == '&' || c == '.') ++
      ['$'] ++ v.name.toList.dropWhile (fun c => c == '&' || c == '.'))) := by
    refine IsBare.isNested fun c member => ?_
    rw [String.toList_ofList, List.append_assoc, List.mem_append, List.mem_append] at member
    rcases member with sign | dollar | behind
    · exact texts.name c (List.takeWhile_subset _ sign)
    · rw [List.mem_singleton.1 dollar]
      decide
    · exact texts.name c ((List.dropWhile_suffix _).subset behind)
  unfold argument
  refine .append (.append ?type name) ?value
  case type =>
    split
    · next shown => exact (texts.type _ (mem_of_typeShown? shown)).append (by decide)
    · decide
  case value =>
    split
    · next shown => exact .append (by decide) (texts.value _ (mem_of_shown? shown))
    · decide

theorem isNested_signature {m : MethodToken} (texts : m.toVarToken.Texts IsBare IsNested)
    (arguments : ∀ a ∈ m.arguments, a.Texts IsBare IsNested) : IsNested (signature mode m) := by
  have inner : IsNested (", ".intercalate (m.arguments.map argument)) := by
    refine .intercalate (by decide) (List.forall_mem_map.2 fun a member => ?_)
    exact isNested_argument (arguments a member)
  unfold signature
  refine .append (.parens ?front inner) ?type
  case front =>
    exact .append (.append (.append (.append (by decide) (isNested_word (by decide)))
      (isNested_word (by decide))) (by decide)) texts.name.isNested
  case type =>
    split
    · next shown => exact .append (by decide) (texts.type _ (mem_of_typeShown? shown))
    · decide

theorem isNested_constant {c : VarToken} (texts : c.Texts IsBare IsNested) :
    IsNested (constant c) := by
  unfold constant
  refine .append (.append (.append (by decide) texts.name.isNested) ?_) (by decide)
  split
  · next given => exact .append (by decide) (texts.value _ given)
  · decide

theorem isNested_heading (source : EntityToken) (mode : Mode) {name : String} (bare : IsBare name) :
    IsNested (heading name source mode) := by
  cases mode with
  | interface => exact .append (by decide) bare.isNested
  | implementation =>
    refine .append (.append ?_ (by decide)) bare.isNested
    split
    · decide
    · split <;> decide

theorem nests_methodLines (texts : source.Texts IsBare IsNested) (mode : Mode) :
    Nests (methodLines source mode) := by
  have signatures : ∀ s ∈ (methods source mode).map (signature mode), IsNested s := by
    refine List.forall_mem_map.2 fun m chosen => ?_
    have member := List.mem_of_mem_filter chosen
    exact isNested_signature (texts.methods m member) (texts.arguments m member)
  unfold methodLines
  dsimp only
  split
  · refine nests_blocks (by decide) (by decide) (List.forall_mem_map.2 fun s member => ?_)
    exact opens_below (.append (by decide) (signatures s member)) (by decide)
  · exact nests_stubs (by decide) signatures

theorem nests_generate {target : String} (bare : IsBare target)
    (texts : source.Texts IsBare IsNested) (told : options.Texts IsBare) (kind : EntityKind) :
    Nests ((generate target source kind mode options).map (·.text)) := by
  have asked := isBare_asked bare told.space separator
  unfold generate
  generalize Name.splitTarget target separator options.space = parts at asked ⊢
  obtain ⟨name, space⟩ := parts
  have heading := (isNested_heading source mode asked.1).append
    (isNested_implements texts.name kind mode separator)
  have constants : Nests ((publicOnly source.constants).map constant) := by
    refine .of_forall (List.forall_mem_map.2 fun c chosen => ?_)
    exact isNested_constant (texts.constants c (List.mem_of_mem_filter chosen))
  have body := Nests.block (opens_below heading (by decide : IsNested ""))
    (constants.separate (nests_methodLines texts mode)) (by decide : IsNested "")
  simp only [String.empty_append] at body
  dsimp only
  rw [map_text_number, List.append_assoc, List.append_assoc, ← List.append_assoc [_, _]]
  refine .append (.append (.append (.append (.append ?_ ?_) ?_) ?_) ?_) body
  · exact .single (by decide)
  · split
    · exact .single (by decide)
    · exact .nil
  · exact .single (by decide)
  · refine nests_paragraph fun ns given => ?_
    exact (IsNested.append (by decide) (asked.2 ns given).isNested).append (by decide)
  · refine nests_paragraph fun full given => ?_
    split at given
    · exact (IsNested.append (by decide)
        (isNested_sourceImport? texts.name told (by decide) given)).append (by decide)
    · cases given

end Php

/-! ## Java -/

namespace Java

theorem isNested_argument {v : VarToken} (texts : v.Texts IsBare IsNested) :
    IsNested (argument v) := by
  unfold argument
  split
  · next given => exact ((texts.type _ given).append (by decide)).append texts.name.isNested
  · exact texts.name.isNested

theorem isNested_signature {m : MethodToken} (texts : m.toVarToken.Texts IsBare IsNested)
    (arguments : ∀ a ∈ m.arguments, a.Texts IsBare IsNested) : IsNested (signature mode m) := by
  have inner : IsNested (", ".intercalate (m.arguments.map argument)) := by
    refine .intercalate (by decide) (List.forall_mem_map.2 fun a member => ?_)
    exact isNested_argument (arguments a member)
  unfold signature
  refine .parens (.append (.append (.append (.append (by decide) (isNested_word (by decide)))
    (isNested_word (by decide))) ?_) texts.name.isNested) inner
  split
  · next shown => exact (texts.type _ (mem_of_typeShown? shown)).append (by decide)
  · decide

theorem isNested_constant {c : VarToken} (texts : c.Texts IsBare IsNested) :
    IsNested (constant c) := by
  have given {o : Option String} {usual : String} (each : ∀ t ∈ o, IsNested t)
      (plain : IsNested usual) : IsNested (o.getD usual) := by
    cases o with
    | none => exact plain
    | some t => exact each t rfl
  unfold constant
  exact .append (.append (.append (.append (.append (.append (by decide)
    (given texts.type (by decide))) (by decide)) texts.name.isNested) (by decide))
    (given texts.value (by decide))) (by decide)

theorem isNested_heading (source : EntityToken) (mode : Mode) {name : String} (bare : IsBare name) :
    IsNested (heading name source mode) := by
  unfold heading
  refine .append (.append (.append ?_ (by decide)) ?_) bare.isNested
  · cases source.visibility <;> decide
  · split
    · exact .append (.append (isNested_word (by decide)) (isNested_word (by decide))) (by decide)
    · decide

theorem nests_methodLines (texts : source.Texts IsBare IsNested) (mode : Mode) :
    Nests (methodLines source mode) := by
  have signatures : ∀ s ∈ ((methods source mode).filter (·.type.isSome)).map (signature mode),
      IsNested s := by
    refine List.forall_mem_map.2 fun m chosen => ?_
    have member := List.mem_of_mem_filter (List.mem_of_mem_filter chosen)
    exact isNested_signature (texts.methods m member) (texts.arguments m member)
  unfold methodLines
  dsimp only
  split
  · refine nests_blocks (by decide) (by decide) (List.forall_mem_map.2 fun s member => ?_)
    rw [List.map_singleton, ← String.append_assoc]
    exact opens_line (.append (by decide) (signatures s member))
  · exact nests_stubs (by decide) signatures

theorem nests_generate {target : String} (bare : IsBare target)
    (texts : source.Texts IsBare IsNested) (told : options.Texts IsBare) (kind : EntityKind) :
    Nests ((generate target source kind mode options).map (·.text)) := by
  have asked := isBare_asked bare told.space separator
  unfold generate
  generalize Name.splitTarget target separator options.space = parts at asked ⊢
  obtain ⟨name, space⟩ := parts
  have heading := (isNested_heading source mode asked.1).append
    (isNested_implements texts.name kind mode separator)
  have constants : Nests ((publicOnly source.constants).map constant) := by
    refine .of_forall (List.forall_mem_map.2 fun c chosen => ?_)
    exact isNested_constant (texts.constants c (List.mem_of_mem_filter chosen))
  have body := Nests.block (opens_line heading)
    (constants.separate (nests_methodLines texts mode)) (by decide : IsNested "")
  simp only [String.empty_append] at body
  dsimp only
  rw [map_text_number, List.append_assoc, List.append_assoc, ← List.append_assoc [_]]
  refine .append (.append ?_ ?_) body
  · refine nests_paragraph fun ns given => ?_
    exact (IsNested.append (by decide) (asked.2 ns given).isNested).append (by decide)
  · refine nests_paragraph fun full given => ?_
    split at given
    · exact (IsNested.append (by decide)
        (isNested_sourceImport? texts.name told (by decide) given)).append (by decide)
    · cases given

end Java

/-! ## TypeScript and JavaScript -/

namespace Script

theorem isNested_typeNote {typed : Bool} {type : Option String} (each : ∀ t ∈ type, IsNested t) :
    IsNested (typeNote typed type) := by
  unfold typeNote
  split
  · next shown =>
    split at shown
    · exact .append (by decide) (each _ (mem_of_typeShown? shown))
    · cases shown
  · decide

theorem isNested_default {value : Option String} (each : ∀ x ∈ value, IsNested x) :
    IsNested (match (if mode.hasBodies then Label.shown? value else none) with
      | some value => " = " ++ value
      | none => "") := by
  split
  · next shown =>
    split at shown
    · exact .append (by decide) (each _ (mem_of_shown? shown))
    · cases shown
  · decide

theorem isNested_argument {v : VarToken} {typed : Bool} (texts : v.Texts IsBare IsNested) :
    IsNested (argument mode typed v) := by
  have name : IsNested (if typed then v.name else Text.dropRight (· == '?') v.name) := by
    refine IsBare.isNested ?_
    split
    · exact texts.name
    · refine texts.name.of_subset fun c member => ?_
      rw [Text.dropRight, String.toList_ofList, List.mem_reverse] at member
      exact List.mem_reverse.1 ((List.dropWhile_suffix _).subset member)
  unfold argument
  exact .append (.append (.append name (isNested_word (by decide)))
    (isNested_typeNote texts.type)) (isNested_default texts.value)

theorem isNested_signature {m : MethodToken} {typed : Bool}
    (texts : m.toVarToken.Texts IsBare IsNested)
    (arguments : ∀ a ∈ m.arguments, a.Texts IsBare IsNested) :
    IsNested (signature mode typed m) := by
  have inner : IsNested (", ".intercalate (m.arguments.map (argument mode typed))) := by
    refine .intercalate (by decide) (List.forall_mem_map.2 fun a member => ?_)
    exact isNested_argument (arguments a member)
  unfold signature
  exact .append (.parens (.append (.append (isNested_word (by decide))
    (isNested_word (by decide))) texts.name.isNested) inner) (isNested_typeNote texts.type)

theorem isNested_property {p : PropertyToken} {typed : Bool}
    (texts : p.toVarToken.Texts IsBare IsNested) : IsNested (property mode typed p) := by
  unfold property
  refine .append (.append (.append (.append (.append ?_ (isNested_word (by decide)))
    texts.name.isNested) (isNested_typeNote texts.type)) (isNested_default texts.value)) (by decide)
  split
  · exact .append (isNested_word (by decide)) (isNested_word (by decide))
  · decide

theorem nests_methodLines {indent : String} (blank : IsNested indent)
    (texts : source.Texts IsBare IsNested) (mode : Mode) (typed : Bool) :
    Nests (methodLines indent source mode typed) := by
  have signatures : ∀ s ∈ ((methods source mode).filter
      (fun m => mode.hasBodies || m.name != "constructor")).map (signature mode typed),
      IsNested s := by
    refine List.forall_mem_map.2 fun m chosen => ?_
    have member := List.mem_of_mem_filter (List.mem_of_mem_filter chosen)
    exact isNested_signature (texts.methods m member) (texts.arguments m member)
  unfold methodLines
  dsimp only
  split
  · refine nests_blocks blank (by decide) (List.forall_mem_map.2 fun s member => ?_)
    rw [List.map_singleton, ← String.append_assoc]
    exact opens_line (blank.append (signatures s member))
  · exact nests_stubs blank signatures

private theorem nests_body {indent name : String} (blank : IsNested indent) (bare : IsBare name)
    (texts : source.Texts IsBare IsNested) (kind : EntityKind) (mode : Mode) (typed : Bool) :
    Nests ([indent ++ "export " ++ (if mode.hasBodies then "class" else "interface") ++ " " ++
        name ++ (match (if typed then implemented? source kind mode separator else none) with
        | some interface => " implements " ++ interface
        | none => "") ++ " \x7b"] ++
      separate ((source.properties.filter (·.visibility = .pub)).map
          (fun p => indent ++ pad ++ property mode typed p))
        (methodLines (indent ++ pad) source mode typed) ++ [indent ++ "\x7d"]) := by
  have deeper : IsNested (indent ++ pad) := blank.append (by decide)
  have properties : Nests ((source.properties.filter (·.visibility = .pub)).map
      (fun p => indent ++ pad ++ property mode typed p)) := by
    refine .of_forall (List.forall_mem_map.2 fun p chosen => ?_)
    exact deeper.append (isNested_property (texts.properties p (List.mem_of_mem_filter chosen)))
  have members := properties.separate (nests_methodLines deeper texts mode typed)
  refine .block (opens_line (.append (.append (.append (.append (blank.append (by decide)) ?_)
    (by decide)) bare.isNested) ?_)) members blank
  · split <;> decide
  · split
    · next named =>
      split at named
      · exact .append (by decide) (isNested_implemented? texts.name named)
      · cases named
    · decide

theorem nests_generate {target : String} (bare : IsBare target)
    (texts : source.Texts IsBare IsNested) (told : options.Texts IsBare) (kind : EntityKind) :
    Nests ((generate target source kind mode options).map (·.text)) := by
  have asked := isBare_asked bare told.space separator
  unfold generate
  generalize Name.splitTarget target separator options.space = parts at asked ⊢
  obtain ⟨name, space⟩ := parts
  dsimp only
  rw [map_text_number]
  have strict : Nests (if options.strict then ["\"use strict\";", ""] else []) := by
    split
    · have mark : IsNested "\"use strict\";" := by decide
      exact (Nests.single mark).append (.single (by decide : IsNested ""))
    · exact .nil
  have word : IsNested (if options.spaceWord.isEmpty then "namespace" else options.spaceWord) := by
    split
    · decide
    · exact told.spaceWord.isNested
  cases shown : (if isTyped mode options then space else none) with
  | none =>
    have body := nests_body (by decide : IsNested "") asked.1 texts kind mode (isTyped mode options)
    simp only [Option.isSome_none, Bool.false_eq_true, if_false, List.append_nil,
      List.append_assoc] at body ⊢
    exact strict.append body
  | some ns =>
    have given : space = some ns := by
      split at shown
      · exact shown
      · cases shown
    have body := nests_body (by decide : IsNested pad) asked.1 texts kind mode
      (isTyped mode options)
    have front : IsNested "export " := by decide
    have gap : IsNested " " := by decide
    have opens := opens_line (((front.append word).append gap).append (asked.2 ns given).isNested)
    have whole := strict.append (Nests.block opens body (by decide : IsNested ""))
    simp only [String.empty_append, Option.isSome_some, if_true, List.append_assoc] at whole ⊢
    exact whole

end Script

/-! ## Whole files -/

theorem Language.isNested_render (l : Language) (kind : EntityKind) (mode : Mode)
    {target : String} (bare : IsBare target) (texts : source.Texts IsBare IsNested)
    (told : options.Texts IsBare) :
    IsNested (render (l.generate target source kind mode options)) := by
  rw [Language.render_generate]
  cases l with
  | php => exact Php.nests_generate bare texts told kind
  | java => exact Java.nests_generate bare texts told kind
  | script => exact Script.nests_generate bare texts told kind

theorem Language.exists_lines (l : Language) (target : String) (source : EntityToken)
    (kind : EntityKind) (mode : Mode) (options : Options) :
    ∃ front, front ≠ [] ∧ l.lines target source kind mode options = front ++ ["\x7d"] := by
  cases l with
  | php =>
    simp only [Language.lines, Language.generate, Php.generate, map_text_number]
    exact ⟨_, by simp, rfl⟩
  | java =>
    simp only [Language.lines, Language.generate, Java.generate, map_text_number]
    exact ⟨_, by simp, rfl⟩
  | script =>
    simp only [Language.lines, Language.generate, Script.generate, map_text_number]
    cases if Script.isTyped mode options then
      (Name.splitTarget target Script.separator options.space).2 else none with
    | some ns => exact ⟨_, by simp, rfl⟩
    | none =>
      simp only [Option.isSome_none, Bool.false_eq_true, if_false, List.append_nil,
        String.empty_append]
      exact ⟨_, by simp, rfl⟩

/-- Where names, types, values and namespaces have no brackets, those of the new file are nested
and all closed, and its last line closes the outermost block. -/
theorem generate_isNested (l : Language) (kind : EntityKind) (mode : Mode) {target : String}
    (target_bare : IsBare target) (source_bare : source.Texts IsBare IsBare)
    (options_bare : options.Texts IsBare) :
    IsNested (render (l.generate target source kind mode options)) ∧
      ∃ before, render (l.generate target source kind mode options) = before ++ "\n\x7d\n" := by
  have texts := source_bare.imp fun _ => IsBare.isNested
  refine ⟨l.isNested_render kind mode target_bare texts options_bare, ?_⟩
  obtain ⟨front, filled, lines⟩ := l.exists_lines target source kind mode options
  obtain ⟨first, last, rfl⟩ := List.eq_nil_or_concat front |>.resolve_left filled
  refine ⟨fileOf first ++ last, ?_⟩
  have text := Language.render_generate l target source kind mode options
  rw [text, lines]
  change fileOf _ = _
  rw [List.concat_eq_append, fileOf_append, fileOf_append, fileOf_singleton, fileOf_singleton]
  simp [String.append_assoc]

end Scaffold

/-- A cart with a default value. -/
def stockedCart : EntityToken where
  name := "Shop.Cart"
  properties := [{ name := "total", type := some "number", value := some "0" }]
  methods := [{ name := "add", type := some "void", arguments :=
    [{ name := "sku", type := some "string" }, { name := "count", value := some "1" }] }]

namespace Scaffold

theorem generate_isNested_cart :
    IsBare "Web.Basket" ∧ stockedCart.Texts IsBare IsBare ∧
      Options.Texts IsBare { strict := true, sourceSpace := some "Shop" } ∧
      IsNested (render (Language.script.generate "Web.Basket" stockedCart .interface .implementation
        { strict := true, sourceSpace := some "Shop" })) := by
  have source : stockedCart.Texts IsBare IsBare := {
    name := by decide
    constants := nofun
    properties := List.forall_mem_singleton.2 ⟨by decide, by decide, by decide⟩
    methods := List.forall_mem_singleton.2 ⟨by decide, by decide, nofun⟩
    arguments := List.forall_mem_singleton.2 (List.forall_mem_cons.2
      ⟨⟨by decide, by decide, nofun⟩, List.forall_mem_singleton.2 ⟨by decide, nofun, by decide⟩⟩) }
  have options : Options.Texts IsBare { strict := true, sourceSpace := some "Shop" } :=
    ⟨nofun, by decide, by decide⟩
  exact ⟨by decide, source, options,
    (generate_isNested .script .interface .implementation (by decide) source options).1⟩

end Scaffold

end CodeOutline
