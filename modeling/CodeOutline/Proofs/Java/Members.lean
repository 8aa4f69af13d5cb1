import CodeOutline.Proofs.Java.Pieces
import CodeOutline.Proofs.Scaffold.Lines

/-!
The members of a new Java class or interface are read as members: constants with their values,
methods with their parameters and bodies.
-/

set_option autoImplicit false

namespace CodeOutline.Scaffold.Java

open Syntax
open Grammar.Java
open Grammar (Leaves Stops blanks depthLimit leaves_of_judge list nil_mem_blanks space_mem_blanks
  stays_of_judge stops_of_judge)

variable {gap T w rest : List Char} {others : List String} {n : Nat}

theorem isGap_indented (among : gap ∈ breaks) : IsGap (gap ++ "\n    ".toList) := by
  simp only [breaks, List.mem_cons, List.not_mem_nil, or_false] at among
  obtain rfl | rfl := among
  · exact isGap_of_all (by decide)
  · exact isGap_of_all (by decide)

/-! Modifiers and a type -/

theorem stops_parameters {text : List Char} (paren : grammar.Stops 1 (.sign "(") text) :
    grammar.Stops 4 (reads .parameters) text :=
  stops_reads .parameters (.node (.seq_left paren))

def declarationWords : List String := ["class", "enum", "record", "interface"]

structure Begins (n : Nat) (text T rest : List Char) : Prop where
  type : IsType T
  follows : Follows rest
  modified : grammar.Leaves n modifiers text (' ' :: (T ++ rest))

namespace Begins

variable {text : List Char} (begins : Begins n text T rest)

include begins

theorem typed : grammar.Leaves (depthLimit T.length + 1) typed (' ' :: (T ++ rest)) rest :=
  (begins.type.read [' '] space_mem_blanks rest begins.follows).field

theorem typeParameters :
    grammar.Leaves 10 typeParameters (' ' :: (T ++ rest)) (' ' :: (T ++ rest)) :=
  Leaves.mono (.opt_stays (.node (.seq_left
    (begins.type.starts.stops_sign isGap_space rfl (by decide) rest)))) (by decide)

theorem annotations : grammar.Leaves 6 annotations (' ' :: (T ++ rest)) (' ' :: (T ++ rest)) :=
  begins.type.starts.annotations_stay isGap_space rest

theorem stops_declaration : grammar.Stops (n + 20) (reads .declaration) text := by
  have leading : ∀ s ∈ declarationWords, s ∈ leadingWords := by decide
  have word (s : String) (among : s ∈ declarationWords) :
      grammar.Stops 2 (.word s) (' ' :: (T ++ rest)) :=
    begins.type.stops_words [s]
      (fun s' member => List.mem_singleton.1 member ▸ leading s among) isGap_space
      begins.follows.endsWord
  have mark : grammar.Stops 1 (.sign "@") (' ' :: (T ++ rest)) :=
    begins.type.starts.stops_sign isGap_space rfl (by decide) rest
  have modified := begins.modified
  have rule : grammar.Stops (n + 19) (grammar.rule .declaration) text := by
    refine Stops.mono (.alt (.node (.seq_right modified (.seq_left (word "class" (by decide)))))
      (.alt (.node (.seq_right modified (.seq_left (word "enum" (by decide)))))
      (.alt (.node (.seq_right modified (.seq_left (word "record" (by decide)))))
      (.alt (.node (.seq_right modified (.seq_left (word "interface" (by decide)))))
      (.node (.seq_right modified (.seq_left mark))))))) ?_
    omega
  exact rule.call

theorem stops_constructor : grammar.Stops (n + 20) constructor text := by
  have type := begins.type
  have split : T.takeWhile isNameChar ++ (T.dropWhile isNameChar ++ rest) = T ++ rest := by
    rw [← List.append_assoc, List.takeWhile_append_dropWhile]
  have ends := IsType.endsWord_dropWhile T begins.follows.endsWord
  have all : ∀ c ∈ T.takeWhile isNameChar, isNameChar c = true :=
    List.all_eq_true.1 List.all_takeWhile
  have head {m : Nat} (rest' : grammar.Stops m (.seq (.field "name" name)
      (.seq (.field "parameters" (reads .parameters)) (.seq throws (.field "body" (reads .block)))))
      (' ' :: (T ++ rest))) (small : m ≤ 10) : grammar.Stops (n + 20) constructor text :=
    Stops.mono (.node (.seq_right begins.modified (.seq_right begins.typeParameters rest')))
      (by omega)
  by_cases free : String.ofList (T.takeWhile isNameChar) ∈ reserved
  · have none : grammar.Stops 1 name ([' '] ++ (T ++ rest)) := by
      refine stops_name_of_reserved (type.starts.gap_eq isGap_space rest) ?_
      rwa [IsType.takeWhile_append T begins.follows.endsWord]
    exact head (.seq_left none.field) (by decide)
  · have word : IsWord (T.takeWhile isNameChar) := type.isWord free
    have named := leaves_name isGap_space word ends
    have none : grammar.Stops 4 (reads .parameters) (T.dropWhile isNameChar ++ rest) :=
      stops_parameters (type.stops_paren begins.follows free)
    rw [split] at named
    exact head (.seq_right named.field (.seq_left none.field)) (by decide)

end Begins

/-! Fields -/

def IsValue : List Char → Prop :=
  grammar.IsRead (.alt (reads .arrayInitializer) (reads .expression)) [[';']]

/-- A field behind its type. -/
def valued (name value : List Char) : List Char :=
  ' ' :: (name ++ ([' ', '='] ++ ([' '] ++ (value ++ [';']))))

section Fields

variable {text name value : List Char}

theorem valued_append (name value rest : List Char) : valued name value ++ rest =
    [' '] ++ (name ++ ([' ', '='] ++ ([' '] ++ (value ++ ([';'] ++ rest))))) := by
  simp [valued]

variable (word : IsWord name) (read : IsValue value)

include word

theorem follows_valued (rest : List Char) : Follows (valued name value ++ rest) :=
  ⟨name, word, _, Scan.stopsAt_cons (by decide) _, .inl (valued_append name value rest)⟩

theorem leaves_valuedName (rest : List Char) :
    grammar.Leaves 1 Grammar.Java.name (valued name value ++ rest)
      ([' ', '='] ++ ([' '] ++ (value ++ ([';'] ++ rest)))) := by
  rw [valued_append]
  exact leaves_name isGap_space word (Scan.stopsAt_cons (by decide) _)

theorem stops_method (begins : Begins n text T (valued name value ++ rest)) :
    grammar.Stops (max n (depthLimit T.length) + 30) method text := by
  have typed := begins.typed
  have parameters : grammar.Stops 4 (reads .parameters)
      ([' ', '='] ++ ([' '] ++ (value ++ ([';'] ++ rest)))) :=
    stops_parameters (stops_sign isGap_space (by decide) (by decide) (by decide) _)
  exact Stops.mono (.node (.seq_right begins.modified (.seq_right begins.typeParameters
    (.seq_right begins.annotations (.seq_right typed (.seq_right (leaves_valuedName word rest).field
      (.seq_left parameters.field))))))) (by omega)

include read in
theorem leaves_declarators (rest : List Char) :
    grammar.Leaves (depthLimit value.length + 30) declarators (valued name value ++ rest)
      ([';'] ++ rest) := by
  have dimensions : grammar.Leaves 12 (Rule.opt dimensions)
      ([' ', '='] ++ ([' '] ++ (value ++ ([';'] ++ rest))))
      ([' ', '='] ++ ([' '] ++ (value ++ ([';'] ++ rest)))) :=
    dimensions_stay (stops_sign isGap_space (by decide) (by decide) (by decide) _)
      (stops_sign isGap_space (by decide) (by decide) (by decide) _)
  have mark (text : List Char) : grammar.Leaves 10 (op ["="]) ([' ', '='] ++ ([' '] ++ text))
      ([' '] ++ text) := leaves_of_judge [' ', '='] (by cbv)
  have value_ := read [' '] space_mem_blanks [';'] (.head _) rest
  have comma : grammar.Stops 1 (.sign ",") ([';'] ++ rest) :=
    stops_sign isGap_nil (by decide) (by decide) (by decide) rest
  exact Leaves.mono (.seq (.node ((leaves_valuedName word rest).field.seq (dimensions.seq
    (.opt ((mark _).seq value_.field))))) (.many_stays (.seq_left comma))) (by omega)

include read in
theorem leaves_fieldOf (kind : String) (begins : Begins n text T (valued name value ++ rest)) :
    grammar.Leaves (max n (max (depthLimit T.length) (depthLimit value.length)) + 50) (fieldOf kind)
      text rest := by
  have semi : grammar.Leaves 1 semicolon ([] ++ (";".toList ++ rest)) rest :=
    leaves_sign isGap_nil rfl (by decide) rest
  exact Leaves.mono (.node (begins.modified.seq (begins.typed.seq
    ((leaves_declarators word read rest).seq semi)))) (by omega)

end Fields

/-! Parameters -/

def owners : Rule Grammar.Java.Name := .many (.seq name (.sign "."))

def receiver : Rule Grammar.Java.Name :=
  Rule.sequence [annotations, reads .type, owners, .word "this"]

def spread : Rule Grammar.Java.Name :=
  Rule.sequence [modifiers, reads .type, .sign "...", annotations,
    .node "variable_declarator" (.seq (.field "name" name) (Rule.opt dimensions))]

def plain : Rule Grammar.Java.Name :=
  Rule.sequence [modifiers, typed, .field "name" name, Rule.opt dimensions]

def parameter : Rule Grammar.Java.Name :=
  Rule.choice [.node "receiver_parameter" receiver, .node "spread_parameter" spread,
    .node "formal_parameter" plain]

section Closing

variable {c : Char} (closing : c ∈ [',', ')'])

include closing

theorem endsWord_closing (rest : List Char) : EndsWord (c :: rest) := by
  simp only [List.mem_cons, List.not_mem_nil, or_false] at closing
  obtain rfl | rfl := closing
  · exact Scan.stopsAt_cons (by decide) rest
  · exact Scan.stopsAt_cons (by decide) rest

theorem stops_sign_closing {s : String}
    (other : [',', ')'].all (fun d => s.toList.head? != some d) = true)
    (filled : s ≠ "") (rest : List Char) : grammar.Stops 1 (.sign s) (c :: rest) := by
  have opening : isOpening c = true := by
    simp only [List.mem_cons, List.not_mem_nil, or_false] at closing
    obtain rfl | rfl := closing
    · decide
    · decide
  have apart := List.all_eq_true.1 other c closing
  exact stops_sign isGap_nil opening (by simpa using apart) filled rest

theorem dimensions_stay_closing (rest : List Char) :
    grammar.Leaves 12 (Rule.opt dimensions) (c :: rest) (c :: rest) :=
  dimensions_stay (stops_sign_closing closing (by decide) (by decide) rest)
    (stops_sign_closing closing (by decide) (by decide) rest)

end Closing

section Parameters

variable {name : List Char} (type : IsType T) (word : IsWord name)

include type word

theorem isItem_plain : grammar.IsItem parameter (T ++ ([' '] ++ name)) := by
  intro gap blank c closing rest
  have gapped := isGap_of_blanks blank
  have text : gap ++ (T ++ ([' '] ++ name) ++ c :: rest) =
      gap ++ (T ++ ([' '] ++ (name ++ c :: rest))) := by simp
  have ends := endsWord_closing closing rest
  have follows : Follows ([' '] ++ (name ++ c :: rest)) := ⟨name, word, c :: rest, ends, .inl rfl⟩
  have one := type.read gap blank _ follows
  have named := leaves_name isGap_space word ends
  have stay : grammar.Leaves 25 modifiers (gap ++ (T ++ ([' '] ++ (name ++ c :: rest))))
      (gap ++ (T ++ ([' '] ++ (name ++ c :: rest)))) :=
    modifiers_stay (type.stops_modifier follows gapped)
  have owner : grammar.Leaves 5 owners ([' '] ++ (name ++ c :: rest))
      ([' '] ++ (name ++ c :: rest)) :=
    (Leaves.many_stays (.seq_right named
      (stops_sign_closing closing (by decide) (by decide) rest))).mono (by decide)
  have this : grammar.Stops 2 (.word "this") ([' '] ++ (name ++ c :: rest)) :=
    stops_reserved isGap_space word ["this"] (by decide) (letters_of_all (by decide)) ends
  have receiver : grammar.Stops _ receiver _ := .seq_right (type.starts.annotations_stay gapped _)
    (.seq_right one (.seq_right owner this))
  have dots : grammar.Stops 1 (.sign "...") ([' '] ++ (name ++ c :: rest)) :=
    word.starts.stops_sign isGap_space rfl (by decide) _
  have plain : grammar.Leaves _ plain _ _ :=
    stay.seq (one.field.seq (named.field.seq (dimensions_stay_closing closing rest)))
  rw [text]
  refine Leaves.mono (.alt_right (.node receiver) (.alt_right
    (.node (.seq_right stay (.seq_right one dots.seq_left))) (.node plain))) ?_
  simp only [depthLimit, List.length_append]
  omega

theorem isItem_spread : grammar.IsItem parameter (T ++ (['.', '.', '.', ' '] ++ name)) := by
  intro gap blank c closing rest
  have gapped := isGap_of_blanks blank
  have text : gap ++ (T ++ (['.', '.', '.', ' '] ++ name) ++ c :: rest) =
      gap ++ (T ++ (['.', '.', '.', ' '] ++ (name ++ c :: rest))) := by simp
  have ends := endsWord_closing closing rest
  have follows : Follows (['.', '.', '.', ' '] ++ (name ++ c :: rest)) :=
    ⟨name, word, c :: rest, ends, .inr rfl⟩
  have one := type.read gap blank _ follows
  have named := leaves_name isGap_space word ends
  have stay : grammar.Leaves 25 modifiers
      (gap ++ (T ++ (['.', '.', '.', ' '] ++ (name ++ c :: rest))))
      (gap ++ (T ++ (['.', '.', '.', ' '] ++ (name ++ c :: rest)))) :=
    modifiers_stay (type.stops_modifier follows gapped)
  have owner : grammar.Leaves 5 owners (['.', '.', '.', ' '] ++ (name ++ c :: rest))
      (['.', '.', '.', ' '] ++ (name ++ c :: rest)) :=
    Leaves.mono (.many_stays (.seq_left (stops_name isGap_nil (by decide) (by decide) _)))
      (by decide)
  have this : grammar.Stops 2 (.word "this") (['.', '.', '.', ' '] ++ (name ++ c :: rest)) :=
    stops_of_judge (by cbv)
  have receiver : grammar.Stops _ receiver _ := .seq_right (type.starts.annotations_stay gapped _)
    (.seq_right one (.seq_right owner this))
  have dots : grammar.Leaves 1 (.sign "...") (['.', '.', '.', ' '] ++ (name ++ c :: rest))
      ([' '] ++ (name ++ c :: rest)) := leaves_sign isGap_nil (s := "...") rfl (by decide) _
  have noMark : grammar.Leaves 6 annotations ([' '] ++ (name ++ c :: rest))
      ([' '] ++ (name ++ c :: rest)) :=
    word.starts.annotations_stay isGap_space _
  have declarator : grammar.Leaves _ (.seq (.field "name" Grammar.Java.name) _) _ _ :=
    named.field.seq (dimensions_stay_closing closing rest)
  have spread : grammar.Leaves _ spread _ _ :=
    stay.seq (one.seq (dots.seq (noMark.seq declarator.node)))
  rw [text]
  refine Leaves.mono (.alt_right (.node receiver) (.alt_left (.node spread))) ?_
  simp only [depthLimit, List.length_append]
  omega

end Parameters

theorem leaves_parameters {ps : List (List Char)} (each : ∀ p ∈ ps, grammar.IsItem parameter p)
    (rest : List Char) :
    grammar.Leaves (depthLimit (list ps).length + 220) (reads .parameters)
      ('(' :: (list ps ++ ')' :: rest)) rest := by
  have bare : ∀ c ∈ [',', ')'], ∀ cs, grammar.gap (c :: cs) = 0 := by
    simp only [List.forall_mem_cons, List.not_mem_nil, false_imp_iff, implies_true, and_true]
    exact ⟨fun cs => isGap_nil ',' cs (by decide), fun cs => isGap_nil ')' cs (by decide)⟩
  have opening (text : List Char) : grammar.Leaves 1 (.sign "(") ('(' :: text) text :=
    leaves_of_judge ['('] (by cbv)
  have closing : grammar.Leaves 1 (.sign ")") (')' :: rest) rest := leaves_of_judge [')'] (by cbv)
  have inside : grammar.Leaves (depthLimit (list ps).length + 215) (Rule.commas0 parameter)
      (list ps ++ ')' :: rest) (')' :: rest) := by
    cases ps with
    | nil =>
      have none : grammar.Leaves 120 (Rule.commas0 parameter) (')' :: rest) (')' :: rest) :=
        stays_of_judge (by cbv)
      exact none.mono (by omega)
    | cons p ps => exact (Grammar.leaves_commas bare each rest).opt.mono (by omega)
  have parsed :
      grammar.Leaves _ (grammar.rule .parameters) ('(' :: (list ps ++ ')' :: rest)) rest :=
    .node ((opening _).seq (inside.seq closing))
  exact parsed.call.mono (by omega)

/-! Methods -/

/-- The body of every method, with the blank in front of its brace. -/
def bodyChars : List Char :=
  " \x7b\n        throw new java.lang.IllegalStateException(\"Not implemented\");\n    \x7d".toList

set_option maxRecDepth 4000 in
theorem leaves_body (rest : List Char) :
    grammar.Leaves 300 (reads .block) (bodyChars ++ rest) rest := leaves_of_judge bodyChars (by cbv)

def endChars : Mode → List Char
  | .interface => [';']
  | .implementation => bodyChars

def signed (name : List Char) (ps : List (List Char)) : List Char :=
  ' ' :: (name ++ '(' :: (list ps ++ [')']))

def methodEnd : Rule Grammar.Java.Name :=
  Rule.sequence [Rule.opt dimensions, throws, .alt (.field "body" (reads .block)) semicolon]

theorem leaves_end (mode : Mode) (rest : List Char) :
    grammar.Leaves 310 methodEnd (endChars mode ++ rest) rest := by
  cases mode with
  | interface =>
    have semi : grammar.Leaves 310 methodEnd ([';'] ++ rest) rest := leaves_of_judge [';'] (by cbv)
    exact semi
  | implementation =>
    have dimensions : grammar.Leaves 100 (Rule.opt dimensions) (bodyChars ++ rest)
        (bodyChars ++ rest) := stays_of_judge (by cbv)
    have throws : grammar.Leaves 100 throws (bodyChars ++ rest) (bodyChars ++ rest) :=
      stays_of_judge (by cbv)
    exact (dimensions.seq (throws.seq (.alt_left (leaves_body rest).field))).mono (by omega)

section Methods

variable {text name : List Char} {ps : List (List Char)} (word : IsWord name)

include word

theorem follows_signed (rest : List Char) : Follows (signed name ps ++ rest) :=
  ⟨name, word, '(' :: (list ps ++ ')' :: rest), Scan.stopsAt_cons (by decide) _,
    .inl (by simp [signed])⟩

theorem leaves_method (each : ∀ p ∈ ps, grammar.IsItem parameter p) (mode : Mode)
    (begins : Begins n text T (signed name ps ++ (endChars mode ++ rest))) :
    grammar.Leaves (max n (max (depthLimit T.length) (depthLimit (list ps).length + 220)) + 350)
      method text rest := by
  have named : grammar.Leaves 1 Grammar.Java.name (signed name ps ++ (endChars mode ++ rest))
      ('(' :: (list ps ++ ')' :: (endChars mode ++ rest))) := by
    have here := leaves_name isGap_space word
      (Scan.stopsAt_cons (c := '(') (by decide) (list ps ++ ')' :: (endChars mode ++ rest)))
    simpa [signed] using here
  have parameters := leaves_parameters each (endChars mode ++ rest)
  exact Leaves.mono (.node (begins.modified.seq (begins.typeParameters.seq
    (begins.annotations.seq (begins.typed.seq (named.field.seq (parameters.field.seq
      (leaves_end mode rest)))))))) (by omega)

end Methods

/-! Members -/

def memberName : Mode → Grammar.Java.Name
  | .interface => .interfaceMember
  | .implementation => .classMember

abbrev IsMember (mode : Mode) : List Char → Prop :=
  grammar.IsPart (reads (memberName mode)) breaks

/-- The line break in front of a member and its indentation. -/
def indent : List Char := "\n    ".toList

/-- A member behind its indentation: that it is public, more modifiers, a type and the rest. -/
def member (others : List String) (T rest : List Char) : List Char :=
  indent ++ (modified "public" others ++ ' ' :: (T ++ rest))

section Member

theorem begins_member (among : gap ∈ breaks) (type : IsType T) (follows : Follows rest)
    (worded : ∀ s ∈ others, s ∈ modifierWords) :
    Begins (others.length + 25) (gap ++ member others T rest) T rest := by
  refine ⟨type, follows, ?_⟩
  have stops : grammar.Stops 20 modifier ([' '] ++ (T ++ rest)) :=
    type.stops_modifier follows isGap_space
  have modified := leaves_modifiers (isGap_indented among) (s := "public") (by decide) worded stops
  simpa [member, indent] using modified

theorem stops_semicolon (among : gap ∈ breaks) (others : List String) (T rest : List Char) :
    grammar.Stops 1 semicolon (gap ++ member others T rest) := by
  have first := stops_sign (isGap_indented among) (s := ";") (c := 'p') (by decide) (by decide)
    (by decide)
    ("ublic".toList ++ (others.flatMap (fun s => ' ' :: s.toList) ++ ' ' :: (T ++ rest)))
  simpa [semicolon, member, indent, modified] using first

theorem isMember_field {name value : List Char} (type : IsType T) (word : IsWord name)
    (read : IsValue value) (mode : Mode) :
    IsMember mode (member ["static", "final"] T (valued name value)) := by
  refine ⟨by simp [member], fun gap among rest => ?_⟩
  have text : gap ++ (member ["static", "final"] T (valued name value) ++ rest) =
      gap ++ member ["static", "final"] T (valued name value ++ rest) := by
    simp [member]
  have follows : Follows (valued name value ++ rest) := follows_valued word rest
  have words : ∀ s ∈ ["static", "final"], s ∈ modifierWords := by decide
  have begins := begins_member among type follows words
  have semi := stops_semicolon among ["static", "final"] T (valued name value ++ rest)
  have method := stops_method word begins
  have field (kind : String) := leaves_fieldOf word read kind begins
  have parsed : grammar.Leaves (max (depthLimit T.length) (depthLimit value.length) + 200)
      (grammar.rule (memberName mode))
      (gap ++ member ["static", "final"] T (valued name value ++ rest)) rest := by
    cases mode with
    | interface =>
      refine Leaves.mono (.alt_right semi (.alt_right begins.stops_declaration
        (.alt_right method (field _)))) ?_
      simp only [depthLimit, List.length_cons, List.length_nil]
      omega
    | implementation =>
      refine Leaves.mono (.alt_right semi (.alt_right begins.stops_declaration
        (.alt_right method (.alt_right begins.stops_constructor (.alt_left (field _)))))) ?_
      simp only [depthLimit, List.length_cons, List.length_nil]
      omega
  rw [text]
  refine parsed.call.mono ?_
  simp only [depthLimit, member, valued, List.length_append, List.length_cons]
  omega

theorem isMember_method {name : List Char} {ps : List (List Char)} (type : IsType T)
    (word : IsWord name) (each : ∀ p ∈ ps, grammar.IsItem parameter p)
    (worded : ∀ s ∈ others, s ∈ modifierWords) (mode : Mode) :
    IsMember mode (member others T (signed name ps ++ endChars mode)) := by
  refine ⟨by simp [member], fun gap among rest => ?_⟩
  have text : gap ++ (member others T (signed name ps ++ endChars mode) ++ rest) =
      gap ++ member others T (signed name ps ++ (endChars mode ++ rest)) := by
    simp [member]
  have follows : Follows (signed name ps ++ (endChars mode ++ rest)) := follows_signed word _
  have begins := begins_member among type follows worded
  have semi := stops_semicolon among others T (signed name ps ++ (endChars mode ++ rest))
  have method := leaves_method word each mode begins
  have parsed : grammar.Leaves
      (others.length + max (depthLimit T.length) (depthLimit (list ps).length) + 700)
      (grammar.rule (memberName mode))
      (gap ++ member others T (signed name ps ++ (endChars mode ++ rest))) rest := by
    cases mode with
    | interface =>
      exact Leaves.mono (.alt_right semi (.alt_right begins.stops_declaration
        (.alt_left method))) (by omega)
    | implementation =>
      exact Leaves.mono (.alt_right semi (.alt_right begins.stops_declaration
        (.alt_left method))) (by omega)
  rw [text]
  refine parsed.call.mono ?_
  have shorter : others.length ≤ (others.flatMap (fun s => ' ' :: s.toList)).length :=
    length_le_flatMap (by simp) others
  simp only [depthLimit, member, modified, signed, List.length_append, List.length_cons]
  omega

end Member

abbrev Members (mode : Mode) : List Char → Prop :=
  grammar.Parts (reads (memberName mode)) breaks

/-! The members that the generator writes -/

/-- A constant whose parts can be read: its name, its type, and its value. -/
structure IsPlainConstant (c : VarToken) : Prop where
  name : IsWord c.name.toList
  type : IsType (c.type.getD "Object").toList
  value : IsValue (c.value.getD "null").toList

theorem isMember_constant {c : VarToken} (plain : IsPlainConstant c) (mode : Mode) :
    IsMember mode ('\n' :: (constant c).toList) := by
  have text : '\n' :: (constant c).toList = member ["static", "final"]
      (c.type.getD "Object").toList (valued c.name.toList (c.value.getD "null").toList) := by
    simp [constant, pad, member, indent, modified, valued]
  rw [text]
  exact isMember_field plain.type plain.name plain.value mode

/-- A parameter whose parts can be read: its name, and its type, which may end in the dots of any
number of values. -/
structure IsPlain (v : VarToken) : Prop where
  name : IsWord v.name.toList
  type : ∃ t, IsType t.toList ∧ (v.type = some t ∨ v.type = some (t ++ "..."))

theorem isItem_argument {v : VarToken} (plain : IsPlain v) :
    grammar.IsItem parameter (argument v).toList := by
  obtain ⟨t, type, shown | shown⟩ := plain.type
  · have text : (argument v).toList = t.toList ++ ([' '] ++ v.name.toList) := by
      simp [argument, shown]
    exact text ▸ isItem_plain type plain.name
  · have text : (argument v).toList = t.toList ++ (['.', '.', '.', ' '] ++ v.name.toList) := by
      simp [argument, shown]
    exact text ▸ isItem_spread type plain.name

/-- A method whose parts can be read: its name, its type and its parameters. -/
structure IsPlainMethod (m : MethodToken) : Prop where
  name : IsWord m.name.toList
  type : ∀ t, m.type = some t → IsType t.toList
  parameters : ∀ v ∈ m.arguments, IsPlain v

def modifiersOf (mode : Mode) (m : MethodToken) : List String :=
  (if mode.hasBodies && m.isStatic then ["static"] else []) ++
    (if mode.hasBodies && m.isReadonly && !m.isAbstract then ["final"] else [])

theorem modifiersOf_mem (mode : Mode) (m : MethodToken) :
    ∀ s ∈ modifiersOf mode m, s ∈ modifierWords := by
  unfold modifiersOf
  split <;> split
  all_goals decide

theorem toList_signature {m : MethodToken} {t : String} (typed : m.type = some t) (filled : t ≠ "")
    (mode : Mode) (ending : List Char) :
    '\n' :: (pad ++ signature mode m).toList ++ ending = member (modifiersOf mode m) t.toList
      (signed m.name.toList (m.arguments.map (fun v => (argument v).toList)) ++ ending) := by
  have arguments : (", ".intercalate (m.arguments.map argument)).toList =
      list (m.arguments.map (fun v => (argument v).toList)) := by
    rw [toList_list, List.map_map]
    simp only [Function.comp_def]
  have shown : typeShown? m.type [] = some t := by simp [typeShown?, typed, filled]
  unfold signature modifiersOf signed
  rw [← arguments, shown]
  generalize (", ".intercalate (m.arguments.map argument)) = written
  generalize (mode.hasBodies && m.isStatic) = static
  generalize (mode.hasBodies && m.isReadonly && !m.isAbstract) = final
  cases static <;> cases final
  all_goals simp [pad, member, indent, modified]

/-- The methods that a new file carries: those with a type. -/
def written (source : EntityToken) (mode : Mode) : List MethodToken :=
  (methods source mode).filter (·.type.isSome)

theorem isMember_signature {m : MethodToken} (plain : IsPlainMethod m)
    (typed : m.type.isSome = true) (mode : Mode) :
    IsMember mode ('\n' :: (pad ++ signature mode m).toList ++ endChars mode) := by
  obtain ⟨t, shown⟩ := Option.isSome_iff_exists.1 typed
  have type := plain.type t shown
  have filled : t ≠ "" := by
    rintro rfl
    obtain ⟨c, cs, none, -⟩ := type.starts
    cases none
  have each : ∀ p ∈ m.arguments.map (fun v => (argument v).toList), grammar.IsItem parameter p := by
    simpa using fun v among => isItem_argument (plain.parameters v among)
  rw [toList_signature shown filled]
  exact isMember_method type plain.name each (modifiersOf_mem mode m) mode

theorem below_body :
    " \x7b".toList ++ below [pad ++ pad ++
      "throw new java.lang.IllegalStateException(\"Not implemented\");", pad ++ "\x7d"] =
        endChars .implementation := by decide +kernel

theorem below_opened (line : String) (lines : List String) :
    below ([line ++ " \x7b"].map (pad ++ ·) ++ lines) =
      '\n' :: (pad ++ line).toList ++ (" \x7b".toList ++ below lines) := by
  simp [below]

theorem members_methods {source : EntityToken} {mode : Mode}
    (plain : ∀ m ∈ written source mode, IsPlainMethod m) (filled : methodLines source mode ≠ [])
    {gap : List Char} (among : gap ∈ breaks) :
    Members mode (gap ++ below (methodLines source mode)) := by
  have each : ∀ m ∈ written source mode,
      IsMember mode ('\n' :: (pad ++ signature mode m).toList ++ endChars mode) := fun m there =>
    isMember_signature (plain m there) (List.mem_filter.1 there).2 mode
  cases mode with
  | interface =>
    refine parts_lines ?_ among filled
    intro l listed
    obtain ⟨s, there, rfl⟩ := List.mem_map.1 listed
    obtain ⟨m, inside, rfl⟩ := List.mem_map.1 there
    simpa [endChars] using each m inside
  | implementation =>
    refine parts_spaced ?_ among ?_
    · intro g listed
      obtain ⟨opening, there, rfl⟩ := List.mem_map.1 listed
      obtain ⟨s, signed, rfl⟩ := List.mem_map.1 there
      obtain ⟨m, inside, rfl⟩ := List.mem_map.1 signed
      have member := each m inside
      rw [← below_body, ← below_opened] at member
      exact member
    · exact fun none => filled (congrArg spaced none)

end CodeOutline.Scaffold.Java
