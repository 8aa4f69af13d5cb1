import CodeOutline.Proofs.Php.Statements
import CodeOutline.Proofs.Related
import CodeOutline.Proofs.Syntax.Grammars
import CodeOutline.Proofs.Text.Occurrence

/-!
The signs in front of the names of parameters. An ampersand or three dots anywhere between the
beginning of a parameter and its name are taken for those of a reference and of a variadic
parameter, also where they belong to a type, an attribute or a comment; the ampersand of a promoted
reference is a part of its name.
-/

set_option autoImplicit false

namespace CodeOutline.Analysis.Php

open Syntax (Node Rule)
open Grammar.Php (Name grammar IsWord)

/-! ## What a parameter is declared as -/

/-- The parameters that a function or method lists. -/
def parametersOf (d : Node) : List Node :=
  match d.child? "parameters" with
  | some list => list.named.filter (fun p => Text.endsWith p.kind "parameter")
  | none => []

/-- The variable of a parameter. A reference in the place of the name ends with its variable. -/
def variableOf? (p : Node) : Option Node :=
  (p.child? "name").bind (fun name =>
    if name.kind = "by_ref" then name.children.getLast? else some name)

/-- The name is a reference, or a modifier in front of it makes it one. -/
def isReference (p : Node) : Bool :=
  (p.child? "name").any (fun name => name.kind == "by_ref" ||
    (p.childrenBefore name).any (·.kind == "reference_modifier"))

def isVariadic (p : Node) : Bool := p.kind == "variadic_parameter"

/-- The signs of a reference and of a variadic parameter. -/
def signs (reference variadic : Bool) : String :=
  (if reference then "&" else "") ++ if variadic then "..." else ""

/-- The signs of a parameter, and its variable without the dollar sign. -/
def declaredName (p : Node) : String :=
  signs (isReference p) (isVariadic p) ++
    ((variableOf? p).map (fun v => String.ofList v.chars.tail)).getD ""

/-! ## What the grammar says of a parameter -/

section Grammar

open Grammar.Php (op variableName variableScan)

/-- A dollar sign and a word. -/
def IsVariable (v : Node) (word : List Char) : Prop :=
  v.kind = "variable_name" ∧ v.chars = '$' :: word ∧ IsWord word

/-- The name of a parameter is a variable, or a reference to one. -/
inductive IsTarget (name : Node) : Prop
  | plain {word : List Char} : IsVariable name word → IsTarget name
  | reference {v : Node} {word inside : List Char} : name.kind = "by_ref" →
      name.children.getLast? = some v → IsVariable v word →
      name.chars = '&' :: (inside ++ '$' :: word) → IsTarget name

structure IsParameter (p : Node) : Prop where
  starts : ∀ c ∈ p.children, p.start.offset ≤ c.start.offset
  named : ∃ name, p.child? "name" = some name ∧ IsTarget name

structure IsSigned (n : Node) : Prop where
  modifier : n.kind = "reference_modifier" → ∃ rest, n.tail = '&' :: rest
  parameter : Text.endsWith n.kind "parameter" = true → IsParameter n

def isSign (kind : String) : Bool :=
  kind == "reference_modifier" || Text.endsWith kind "parameter"

def isModifier (kind : String) : Rule Name → Bool
  | .longest _ wanted => kind == "reference_modifier" && wanted == ["&"]
  | _ => false

variable {text : List Char} {n t : Node}

theorem isSigned_of_other (other : isSign n.kind = false) : IsSigned n := by
  obtain ⟨modifier, parameter⟩ := Bool.or_eq_false_iff.1 other
  refine ⟨fun same => ?_, fun same => ?_⟩
  · rw [same] at modifier
    cases modifier
  · rw [same] at parameter
    cases parameter

theorem builds_of_shunsBut {a : Rule Name} (shuns : a.shunsBut isModifier isSign = true) :
    a.Builds grammar text IsSigned := by
  refine Rule.builds_of_shunsBut (fun n => isSigned_of_other) ?_ shuns
  intro kind a right c xs stop derived n around
  unfold isModifier at right
  split at right
  · simp only [Bool.and_eq_true, beq_iff_eq] at right
    obtain ⟨rfl, rfl⟩ := right
    refine ⟨fun _ => ?_, fun same => ?_⟩
    · obtain ⟨s, among, extras, sign, rfl, comments, proper, is⟩ :=
        Syntax.Grammar.single_longest derived
      obtain rfl := List.mem_singleton.1 among
      have core : n.children = [sign] :=
        around.children_eq.trans (Syntax.core_cons comments proper)
      obtain ⟨-, tail⟩ := around.starts sign (by rw [core]; rfl)
      obtain ⟨rest, begins⟩ := is.begins
      exact ⟨rest, tail.trans begins⟩
    · rw [around.kind_eq] at same
      exact absurd same (by decide)
  · cases right

theorem isVariable_of_makes {v : Node} (kind : v.kind = "variable_name")
    (makes : variableScan.Makes v.chars) : ∃ word, IsVariable v word := by
  obtain ⟨dollar, word, chars, one, name⟩ := makes.seq
  rw [show dollar = ['$'] from one.text] at chars
  exact ⟨word, kind, chars, Grammar.Php.isWord_of_makes name⟩

def IsRawTarget (u : Node) : Prop :=
  (u.kind = "variable_name" ∧ variableScan.Makes u.chars) ∨
    ∃ c ys stop, grammar.Derives [] (.seq (op ["&"]) variableName) c ys stop ∧
      u.Encloses "by_ref" ys

theorem isTarget_of_raw {u : Node} (raw : IsRawTarget u) (each : u.Each (·.IsRead text))
    (nested : u.IsNested) : IsTarget u := by
  rcases raw with ⟨kind, makes⟩ | ⟨c, ys, stop, derived, around⟩
  · obtain ⟨word, own⟩ := isVariable_of_makes kind makes
    exact .plain own
  · cases derived with
    | seq first second =>
      obtain ⟨s, among, extras, sign, rfl, comments, proper, is⟩ :=
        Syntax.Grammar.single_longest first
      obtain rfl := List.mem_singleton.1 among
      obtain ⟨others, v, rfl, -, plain, kind, -, -, makes⟩ := Syntax.Grammar.single_leaf second
      obtain ⟨word, own⟩ := isVariable_of_makes kind makes
      have parts : extras ++ [sign] ++ (others ++ [v]) = extras ++ sign :: (others ++ [v]) := by
        simp
      have core := around.children_eq
      rw [parts, Syntax.core_cons comments proper] at core
      have last : v ∈ u.children := by rw [core]; simp
      obtain ⟨-, tail⟩ := around.starts sign (by rw [core]; rfl)
      have ends : u.stop = v.stop := by
        refine around.stops v ?_
        rw [core, ← List.cons_append, List.getLast?_concat]
        rfl
      have whole := each.here.take_tail (each.child last).here (nested.start_le last)
        (nested.child last).start_le_stop
      obtain ⟨rest, begins⟩ := is.begins
      have front : u.tail = '&' :: rest := tail.trans begins
      have later : v.start.offset - u.start.offset ≠ 0 := by
        -- The ampersand and the dollar sign cannot stand at the same place.
        intro same
        have chars := own.2.1
        rw [Node.chars, ← each.here.drop_tail (each.child last).here (nested.start_le last), same,
          List.drop_zero, front] at chars
        have first := congrArg List.head? chars
        rw [List.head?_take] at first
        split at first
        · cases first
        · exact absurd (Option.some.inj first) (by decide)
      obtain ⟨k, count⟩ := Nat.exists_eq_succ_of_ne_zero later
      have final : u.children.getLast? = some v := by
        rw [core, ← List.cons_append, List.getLast?_concat]
      have chars : u.chars = '&' :: (rest.take k ++ '$' :: word) := by
        rw [Node.chars, ends, whole, count, front, own.2.1]
        rfl
      exact .reference around.kind_eq final own chars

theorem parameter_builds {kind : String} {a : Rule Name} (apart : kind ≠ "reference_modifier")
    (shuns : a.shunsBut isModifier isSign = true) (gives : a.Gives grammar "name" IsRawTarget) :
    (Rule.node kind a).Builds grammar text IsSigned := by
  refine ⟨builds_of_shunsBut shuns, fun fuel c xs stop run order each n around => ?_⟩
  refine ⟨fun same => absurd (around.kind_eq.symm.trans same) apart, fun _ => ?_⟩
  have tidy : ∀ x ∈ xs, x.isExtra = true → x.field = none :=
    fun x member => (each x member).here.1.tidy
  obtain ⟨t, found, raw⟩ := gives (Syntax.Grammar.derives_of_run run) tidy
  have there := List.mem_of_find?_eq_some found
  refine ⟨fun c member => around.start_le order member, t, around.child?_eq tidy found, ?_⟩
  exact isTarget_of_raw raw ((each t there).imp (fun x both => both.1)) (order.each t there).1

theorem gives_variable : (Rule.field "name" variableName).Gives grammar "name" IsRawTarget := by
  refine Rule.Gives.imp (Rule.Gives.field (fun derived => ?_))
    (q := fun t => ∃ u : Node, (u.kind = "variable_name" ∧ variableScan.Makes u.chars) ∧
      t = { u with field := some "name" }) ?_
  · exact (Syntax.Grammar.single_leaf derived).mono (fun t own => ⟨own.2.1, own.1, own.2.2.2⟩)
  · rintro t ⟨u, own, rfl⟩
    exact .inl own

theorem gives_reference : (Rule.field "name" (.alt (.node "by_ref" (.seq (op ["&"]) variableName))
    variableName)).Gives grammar "name" IsRawTarget := by
  refine Rule.Gives.imp (Rule.Gives.field (fun derived => ?_))
    (q := fun t => ∃ u, IsRawTarget u ∧ t = { u with field := some "name" }) ?_
  · cases derived with
    | altLeft inner =>
      refine (Syntax.Grammar.single_node inner).mono (fun t own => ⟨own.2.1, .inr ?_⟩)
      exact own.2.2
    | altRight inner =>
      exact (Syntax.Grammar.single_leaf inner).mono
        (fun t own => ⟨own.2.1, .inl ⟨own.1, own.2.2.2⟩⟩)
  · rintro t ⟨u, raw | ⟨c, ys, stop, derived, around⟩, rfl⟩
    · exact .inl raw
    · exact .inr ⟨c, ys, stop, derived, around.kind_eq, around.children_eq, around.starts,
        around.stops⟩

theorem gives_behind {a b : Rule Name} (free : a.isRoleless = true)
    (gives : b.Gives grammar "name" IsRawTarget) :
    (Rule.seq a b).Gives grammar "name" IsRawTarget :=
  gives.behind Grammar.Php.rules_roleless (.free free)

theorem gives_behind_type {b : Rule Name} (gives : b.Gives grammar "name" IsRawTarget) :
    (Rule.seq Grammar.Php.typed b).Gives grammar "name" IsRawTarget :=
  gives.behind Grammar.Php.rules_roleless (.alt (.field (by decide) (.free rfl)) (.free rfl))

theorem parameters_build : Grammar.Php.parameter.Builds grammar text IsSigned := by
  refine Rule.builds_choice (List.forall_mem_cons.2 ⟨?promoted, List.forall_mem_cons.2
    ⟨?variadic, List.forall_mem_singleton.2 ?simple⟩⟩)
  case promoted =>
    refine parameter_builds (by decide) (by decide) ?_
    exact gives_behind rfl (gives_behind rfl (gives_behind_type gives_reference.ahead))
  case variadic =>
    refine parameter_builds (by decide) (by decide) ?_
    exact gives_behind rfl (gives_behind_type (gives_behind rfl (gives_behind rfl gives_variable)))
  case simple =>
    refine parameter_builds (by decide) (by decide) ?_
    exact gives_behind rfl (gives_behind_type (gives_behind rfl gives_variable.ahead))

theorem shunsBut_binaryRule (level : Nat) :
    (Grammar.Php.binaryRule level).shunsBut isModifier isSign = true := by
  have operators : ∀ a ∈ Grammar.Php.levels, a.shunsBut isModifier isSign = true := by decide
  unfold Grammar.Php.binaryRule
  split
  · rfl
  · split
    · rfl
    · split
      · next operator found =>
        have own := operators operator (List.mem_of_getElem? found)
        have apart : isSign "binary_expression" = false := by decide
        simpa [Rule.shunsBut, Grammar.Php.reads, apart] using own
      · rfl

theorem rules_build (name : Name) : (grammar.rule name).Builds grammar text IsSigned := by
  cases name with
  | parameters =>
    have other {kind : String} (other : isSign kind = false) (n : Node) (same : n.kind = kind) :
        IsSigned n := isSigned_of_other (by rw [same]; exact other)
    have sign (s : String) (apart : isSign s = false) :
        (Rule.sign s : Rule Name).Builds grammar text IsSigned := fun n same => other apart n same
    have comma := sign "," (by decide)
    refine ⟨⟨sign "(" (by decide), ⟨⟨⟨parameters_build, comma, parameters_build⟩, comma, trivial⟩,
      trivial⟩, sign ")" (by decide)⟩, fun _ _ _ _ _ _ _ n around => ?_⟩
    exact other (by decide) n around.kind_eq
  | binary level => exact builds_of_shunsBut (shunsBut_binaryRule level)
  | _ => exact builds_of_shunsBut (by decide)

theorem kind_of_between {cs : List Char} {length : Nat} {kind : String}
    (found : Grammar.Php.between cs = some (length, some kind)) :
    kind ∈ ["comment", "text_interpolation"] := by
  unfold Grammar.Php.between at found
  split at found
  · cases found
  · split at found
    · cases found
    · obtain ⟨⟨own, scan⟩, among, taken⟩ := List.exists_of_findSome?_eq_some found
      obtain ⟨n, -, same⟩ := Option.map_eq_some_iff.1 taken
      obtain rfl : own = kind := Option.some.inj (congrArg Prod.snd same)
      have kinds := List.mem_map_of_mem (f := Prod.fst) among
      rcases List.mem_cons.1 kinds with rfl | others
      · exact List.mem_cons_self
      · exact others

theorem isSigned_of_read? {root n c : Node} (read : Grammar.Php.read? text = some root)
    (has : root.Has n) (member : c ∈ n.children) : c.IsRead text ∧ IsSigned c := by
  have all : ∀ c ∈ root.children, c.Each (fun n => n.IsRead text ∧ IsSigned n) := by
    refine Syntax.Grammar.each_of_read? ?comments ?roles ?moves rules_build ?own
      (builds_of_shunsBut (by decide)) read
    case comments =>
      intro depth cs length kind found n same
      refine isSigned_of_other ?_
      rw [same]
      exact (by decide : ∀ kind ∈ ["comment", "text_interpolation"], isSign kind = false) kind
        (kind_of_between found)
    case roles => exact fun signed _ => ⟨signed.modifier, fun same =>
      ⟨(signed.parameter same).starts, (signed.parameter same).named⟩⟩
    case moves =>
      intro name
      rw [Grammar.Php.moves_rule]
      exact List.forall_mem_nil _
    case own =>
      refine List.forall_mem_singleton.2 ⟨?_, ?_⟩
      · rintro before after c here ⟨⟩
        exact here.skip _
      · rintro before after c ⟨⟩
        rw [Syntax.Grammar.offset_skip]
        exact Nat.le_add_right _ _
  cases has with
  | self => exact (all c member).here
  | inside first below => exact ((below.each (all _ first)).child member).here

end Grammar

/-! ## What is stored of a parameter -/

section Stored

variable {text : List Char} {t : TokenTree} {p name : Node} {word : List Char}

theorem signs_eq_iff {reference variadic reference' variadic' : Bool} :
    signs reference variadic = signs reference' variadic' ↔
      reference = reference' ∧ variadic = variadic' := by
  revert reference variadic reference' variadic'
  decide

theorem dollar_not_mem_signs (reference variadic : Bool) :
    '$' ∉ (signs reference variadic).toList := by
  revert reference variadic
  decide

theorem dollar_not_mem_word (is : IsWord word) : '$' ∉ word :=
  fun member => absurd (is.all _ member) (by decide)

theorem plainName_variable (is : IsVariable name word) :
    plainName name.text = String.ofList word := by
  obtain ⟨-, chars, isWord⟩ := is
  obtain ⟨c, rest, rfl, -⟩ := isWord.eq_cons
  have apart : (c == '$') = false := by
    refine beq_eq_false_iff_ne.2 (fun same => dollar_not_mem_word isWord ?_)
    rw [same]
    exact List.mem_cons_self
  rw [plainName, Text.dropLeft, Node.text, String.toList_ofList, chars,
    List.dropWhile_cons_of_pos (by decide), List.dropWhile_cons_of_neg (by simp [apart])]

theorem contains_of_isReference (read : p.IsRead text)
    (signed : ∀ c ∈ p.children, c.IsRead text ∧ IsSigned c) (own : IsParameter p)
    (named : p.child? "name" = some name) (plain : name.kind ≠ "by_ref")
    (reference : isReference p = true) : Text.contains (p.textBefore name) "&" = true := by
  rw [isReference, named, Option.any_some] at reference
  simp only [Bool.or_eq_true, beq_iff_eq, plain, false_or, List.any_eq_true] at reference
  obtain ⟨c, front, modifier⟩ := reference
  have member : c ∈ p.children := (List.takeWhile_sublist _).subset front
  have early : c.start.offset < name.start.offset := by
    simpa using List.mem_takeWhile_imp front
  have later := own.starts c member
  obtain ⟨rest, begins⟩ := (signed c member).2.modifier modifier
  have at_ : (p.tail.take (name.start.offset - p.start.offset))[c.start.offset - p.start.offset]? =
      some '&' := by
    rw [List.getElem?_take_of_lt (by omega), ← List.head?_drop,
      read.drop_tail (signed c member).1 later, begins]
    rfl
  have amp : "&".toList = ['&'] := by decide
  rw [Text.contains_iff, amp, List.singleton_infix_iff, Node.textBefore, String.toList_ofList]
  exact List.mem_of_getElem? at_

theorem parameter?_eq {a : VarToken} (kind : Text.endsWith p.kind "parameter" = true)
    (named : p.child? "name" = some name) (shown : parameter? t p = some a) :
    a.span = some name.span ∧
      a.name = signs (Text.contains (p.textBefore name) "&")
        (isVariadic p || Text.contains (p.textBefore name) "...") ++ plainName name.text := by
  rw [parameter?, kind, named] at shown
  obtain rfl := Option.some.inj shown
  exact ⟨rfl, rfl⟩

/-- A parameter and what is stored of it: its place, and its name with the signs that it is declared
with when its name is a variable, and no other signs are seen in front of that. -/
def IsStored (p : Node) (a : VarToken) : Prop :=
  ∃ name v word, p.child? "name" = some name ∧ a.span = some name.span ∧
    variableOf? p = some v ∧ IsVariable v word ∧
    declaredName p = signs (isReference p) (isVariadic p) ++ String.ofList word ∧
    (a.name = declaredName p ↔ name.kind ≠ "by_ref" ∧
      (Text.contains (p.textBefore name) "&" = true → isReference p = true) ∧
      (Text.contains (p.textBefore name) "..." = true → isVariadic p = true))

theorem isStored_parameter? (kind : Text.endsWith p.kind "parameter" = true)
    (read : p.IsRead text) (own : IsParameter p)
    (signed : ∀ c ∈ p.children, c.IsRead text ∧ IsSigned c) :
    ∃ a, parameter? t p = some a ∧ IsStored p a := by
  obtain ⟨name, named, target⟩ := own.named
  obtain ⟨a, shown⟩ : ∃ a, parameter? t p = some a := by
    rw [parameter?, kind, named]
    exact ⟨_, rfl⟩
  obtain ⟨place, stored⟩ := parameter?_eq kind named shown
  refine ⟨a, shown, name, ?_⟩
  have declared {v : Node} {word : List Char} (found : variableOf? p = some v)
      (is : IsVariable v word) :
      declaredName p = signs (isReference p) (isVariadic p) ++ String.ofList word := by
    rw [declaredName, found, Option.map_some, is.2.1]
    rfl
  cases target with
  | @plain word is =>
    have plain : name.kind ≠ "by_ref" := by rw [is.1]; decide
    have found : variableOf? p = some name := by
      rw [variableOf?, named, Option.bind_some, if_neg plain]
    have seen := contains_of_isReference read signed own named plain
    refine ⟨name, word, named, place, found, is, declared found is, ?_⟩
    rw [stored, declared found is, plainName_variable is, String.append_left_inj, signs_eq_iff,
      and_iff_right plain]
    generalize isReference p = reference at seen ⊢
    generalize Text.contains (p.textBefore name) "&" = ampersand at seen ⊢
    generalize Text.contains (p.textBefore name) "..." = dots
    generalize isVariadic p = variadic
    revert reference ampersand dots variadic
    decide
  | @reference v word inside kind last is chars =>
    have found : variableOf? p = some v := by
      rw [variableOf?, named, Option.bind_some, if_pos kind, last]
    refine ⟨v, word, named, place, found, is, declared found is, ?_⟩
    refine iff_of_false (fun same => ?_) (fun right => right.1 kind)
    -- The dollar sign stays behind the ampersand, but no declared name has one.
    have whole : plainName name.text = name.text := by
      rw [plainName, Text.dropLeft, Node.text, String.toList_ofList, chars,
        List.dropWhile_cons_of_neg (by decide)]
    have dollar : '$' ∈ a.name.toList := by
      rw [stored, whole, Node.text, String.toList_append, String.toList_ofList, chars]
      simp
    rw [same, declared found is, String.toList_append, String.toList_ofList] at dollar
    rcases List.mem_append.1 dollar with sign | letter
    · exact dollar_not_mem_signs _ _ sign
    · exact dollar_not_mem_word is.2.2 letter

end Stored

/-! ## Parameters of documents -/

section Documents

variable {text : String} {settings : LanguageSettings} {t : TokenTree}

theorem arguments_callable {root d : Node} (read : Grammar.Php.read? text.toList = some root)
    (has : root.Has d) (isFree : Bool) :
    List.Forall₂ IsStored (parametersOf d) (callable t d isFree).arguments := by
  unfold parametersOf callable
  dsimp only
  cases found : d.child? "parameters" with
  | none => exact .nil
  | some list =>
    refine forall₂_filterMap (fun p _ other => ?_) (fun p member kind => ?_)
    · rw [parameter?, other]
      rfl
    · have inside := has.trans (has_of_child? found)
      have child := Node.mem_children_of_mem_named member
      obtain ⟨own, signed⟩ := isSigned_of_read? read inside child
      exact isStored_parameter? kind own (signed.parameter kind) (fun c below =>
        isSigned_of_read? read (inside.trans (.child child)) below)

/-- The arguments of a function or method are stored one by one for the parameters of its
declaration. Each has the name that is declared just when its name is a variable, no ampersand but
that of a reference stands in front of it in the text of the parameter, and no three dots but those
of a variadic parameter do. -/
theorem parameter_names_of_document (shown : tree? text settings = some t) :
    ∃ root, Grammar.Php.read? text.toList = some root ∧ ∀ m ∈ callables t, ∃ d, root.Has d ∧
      isCallable d = true ∧ m.name = ((d.child? "name").map Node.text).getD "" ∧
      m.span = (d.child? "name").map Node.span ∧
      List.Forall₂ IsStored (parametersOf d) m.arguments := by
  obtain ⟨root, read, made⟩ := made_of_tree? shown
  refine ⟨root, read, forall_callables (made.each.imp (fun _ _ => trivial) ?_)⟩
  rintro m ⟨before, n, t, member, -, d, has, kind, isFree, rfl⟩
  have there : n ∈ statements root.named := by
    have among := List.mem_map_of_mem (f := Prod.snd) member
    rwa [map_snd_withBefore] at among
  have inside := (has_of_mem_statements there).trans has
  exact ⟨d, inside, kind, rfl, rfl, arguments_callable read inside isFree⟩

end Documents

/-- A function with an intersection type, and a variadic reference. -/
def jointText : String := "<?php\nfunction f(A&B $x, int &...$ys) {}"

theorem parameter_names_of_jointText : ∃ t, tree? jointText {} = some t ∧
    ∃ root, Grammar.Php.read? jointText.toList = some root ∧ ∀ m ∈ callables t, ∃ d, root.Has d ∧
      isCallable d = true ∧ m.name = ((d.child? "name").map Node.text).getD "" ∧
      m.span = (d.child? "name").map Node.span ∧
      List.Forall₂ IsStored (parametersOf d) m.arguments := by
  have reads : (tree? jointText {}).isSome = true := by decide +kernel
  obtain ⟨t, shown⟩ := Option.isSome_iff_exists.1 reads
  exact ⟨t, shown, parameter_names_of_document shown⟩

/-- The sign of the type is stored for that of a reference. -/
theorem parameter_names_ne_declared : ∃ t, tree? jointText {} = some t ∧
    ∃ root, Grammar.Php.read? jointText.toList = some root ∧ ∃ d m, root.Has d ∧
      isCallable d = true ∧ m ∈ callables t ∧ m.span = (d.child? "name").map Node.span ∧
      (parametersOf d).map declaredName = ["x", "&...ys"] ∧
      m.arguments.map (·.name) = ["&x", "&...ys"] := by
  have found : (tree? jointText {}).any (fun t => (Grammar.Php.read? jointText.toList).any
      (fun root => (root.deep 1).any (fun d => (callables t).any (fun m => isCallable d &&
        m.span == (d.child? "name").map Node.span &&
        (parametersOf d).map declaredName == ["x", "&...ys"] &&
        m.arguments.map (·.name) == ["&x", "&...ys"])))) = true := by decide +kernel
  obtain ⟨t, shown, found⟩ := (Option.any_eq_true _ _).1 found
  obtain ⟨root, read, found⟩ := (Option.any_eq_true _ _).1 found
  obtain ⟨d, member, found⟩ := List.any_eq_true.1 found
  obtain ⟨m, among, own⟩ := List.any_eq_true.1 found
  simp only [Bool.and_eq_true, beq_iff_eq] at own
  obtain ⟨⟨⟨callable, place⟩, declared⟩, stored⟩ := own
  exact ⟨t, shown, root, read, d, m, Node.has_of_mem_deep member, callable, among, place, declared,
    stored⟩

end CodeOutline.Analysis.Php
