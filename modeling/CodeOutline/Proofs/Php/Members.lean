import CodeOutline.Proofs.Php.Parameters
import CodeOutline.Proofs.Scaffold.Lines

/-!
The members of a new PHP class or interface are read as members: constants with their values,
methods with their parameters, return types and bodies.
-/

set_option autoImplicit false

namespace CodeOutline.Scaffold.Php

open Syntax
open Grammar.Php
open Grammar (Leaves Stops blanks depthLimit leaves_of_judge list space_mem_blanks stays_of_judge
  stops_of_judge)

/-- A parameter whose parts can be read: its signs and name, its type, and its default, which a
variadic one has not. -/
structure IsPlain (v : VarToken) : Prop where
  name : ∃ sign ∈ signs, ∃ w, IsWord w ∧ v.name.toList = sign ++ w ∧
    (sign ∈ [['.', '.', '.'], ['&', '.', '.', '.']] → Label.shown? v.value = none)
  type : ∀ t, typeShown? v.type silent = some t → IsParameterType t.toList
  value : ∀ d, Label.shown? v.value = some d → IsExpression d.toList

def typeChars (v : VarToken) : List Char :=
  match typeShown? v.type silent with
  | some t => t.toList ++ [' ']
  | none => []

def valueChars (v : VarToken) : List Char :=
  match Label.shown? v.value with
  | some d => [' ', '=', ' '] ++ d.toList
  | none => []

theorem toList_argument {v : VarToken} {sign w : List Char} (among : sign ∈ signs)
    (word : IsWord w) (name : v.name.toList = sign ++ w) :
    (argument v).toList = typeChars v ++ (sign ++ '$' :: (w ++ valueChars v)) := by
  have all : ∀ c ∈ sign, (c == '&' || c == '.') = true := by
    have signed : signs.all (·.all (fun c => c == '&' || c == '.')) = true := by decide
    exact List.all_eq_true.1 (List.all_eq_true.1 signed sign among)
  obtain ⟨c, cs, rfl, start⟩ := word.eq_cons
  have other : (c == '&' || c == '.') = false := by
    have apart (d : Char) (other : isNameStart d = false) : c ≠ d := by
      rintro rfl
      rw [start] at other
      cases other
    simp [apart '&' (by decide), apart '.' (by decide)]
  have signed : (sign ++ c :: cs).takeWhile (fun c => c == '&' || c == '.') = sign := by
    rw [List.takeWhile_append_of_pos all, List.takeWhile_cons, other]
    simp
  have bare : (sign ++ c :: cs).dropWhile (fun c => c == '&' || c == '.') = c :: cs := by
    rw [List.dropWhile_append_of_pos all, List.dropWhile_cons, other]
    simp
  simp only [argument, name, signed, bare, typeChars, valueChars]
  cases typeShown? v.type silent <;> cases Label.shown? v.value <;> simp

theorem leavesType_typeChars {v : VarToken} (plain : IsPlain v) {gap sign : List Char}
    (blank : gap ∈ blanks) (among : sign ∈ signs) (rest : List Char) :
    ∃ gap' ∈ blanks, LeavesType (depthLimit (typeChars v).length + 102)
      (gap ++ (typeChars v ++ (sign ++ '$' :: rest))) (gap' ++ (sign ++ '$' :: rest)) := by
  unfold typeChars
  split
  · next t shown =>
    refine ⟨[' '], space_mem_blanks, ?_⟩
    have typed := leavesType_type blank (plain.type t shown) among rest
    rw [List.append_assoc t.toList]
    exact typed.mono (by simp only [depthLimit, List.length_append]; omega)
  · exact ⟨gap, blank, (leavesType_nil blank among rest).mono (by simp only [depthLimit]; omega)⟩

theorem leaves_valueChars {v : VarToken} (plain : IsPlain v) {c : Char} (closing : c ∈ [',', ')'])
    (rest : List Char) :
    EndsWord (valueChars v ++ c :: rest) ∧
      grammar.Leaves (depthLimit (valueChars v).length + 105) defaultValue
        (valueChars v ++ c :: rest) (c :: rest) := by
  unfold valueChars
  split
  · next d shown =>
    refine ⟨Scan.stopsAt_cons (by decide) _, ?_⟩
    have mark (text : List Char) : grammar.Leaves 100 (op ["="]) ([' ', '='] ++ ' ' :: text)
        (' ' :: text) := leaves_of_judge [' ', '='] (by cbv)
    have closed : [c] ∈ [[';'], [','], [')']] := by
      simp only [List.mem_cons, List.not_mem_nil, or_false] at closing
      obtain rfl | rfl := closing
      · decide
      · decide
    have value := plain.value d shown [' '] space_mem_blanks [c] closed rest
    refine (Leaves.opt ((mark _).seq (.field value))).mono ?_
    simp only [depthLimit, List.length_append]
    omega
  · simp only [List.mem_cons, List.not_mem_nil, or_false] at closing
    obtain rfl | rfl := closing
    · exact ⟨Scan.stopsAt_cons (by decide) _, .mono (n := 100) (stays_of_judge (by cbv)) (by omega)⟩
    · exact ⟨Scan.stopsAt_cons (by decide) _, .mono (n := 100) (stays_of_judge (by cbv)) (by omega)⟩

theorem isParameter_argument {v : VarToken} (plain : IsPlain v) :
    IsParameter (argument v).toList := by
  obtain ⟨sign, among, w, word, name, variadic⟩ := plain.name
  intro gap blank c closing rest
  rw [toList_argument among word name]
  have text : gap ++ (typeChars v ++ (sign ++ '$' :: (w ++ valueChars v)) ++ c :: rest) =
      gap ++ (typeChars v ++ (sign ++ '$' :: (w ++ (valueChars v ++ c :: rest)))) := by simp
  obtain ⟨gap', follows, typed⟩ := leavesType_typeChars plain blank among
    (w ++ (valueChars v ++ c :: rest))
  obtain ⟨ends, default⟩ := leaves_valueChars plain closing rest
  rw [text]
  by_cases simple : sign ∈ [[], ['&']]
  · refine (leaves_simple follows word ends typed simple default).mono ?_
    simp only [depthLimit, List.length_append, List.length_cons]
    omega
  · have dots : sign ∈ [['.', '.', '.'], ['&', '.', '.', '.']] := by
      simp only [signs, List.mem_cons, List.not_mem_nil, or_false] at among simple ⊢
      grind
    have bare : valueChars v = [] := by rw [valueChars, variadic dots]
    rw [bare] at ends typed ⊢
    refine (leaves_variadic follows word ends typed dots).mono ?_
    simp only [depthLimit, List.length_append, List.length_cons]
    omega

/-! Members -/

abbrev IsMember : List Char → Prop := grammar.IsPart (reads .member) breaks

def constOpening : List Char := ['\n', ' ', ' ', ' ', ' ', 'c', 'o', 'n', 's', 't']

theorem leaves_const {gap : List Char} (among : gap ∈ breaks) {n : Nat} {text rest : List Char}
    (elements : grammar.Leaves n constElements ([' '] ++ text) ([';'] ++ rest)) :
    grammar.Leaves (max n 100 + 10) (reads .member) (gap ++ (constOpening ++ ([' '] ++ text)))
      rest := by
  simp only [breaks, List.mem_cons, List.not_mem_nil, or_false] at among
  have const : grammar.Leaves 100 (.word "const") (gap ++ (constOpening ++ ([' '] ++ text)))
      ([' '] ++ text) := by
    obtain rfl | rfl := among
    · exact leaves_of_judge constOpening (by cbv)
    · exact leaves_of_judge ('\n' :: constOpening) (by cbv)
  have semi : grammar.Leaves 100 semicolon ([';'] ++ rest) rest := leaves_of_judge [';'] (by cbv)
  have member : grammar.Leaves (max n 100 + 9) (grammar.rule .member)
      (gap ++ (constOpening ++ ([' '] ++ text))) rest := by
    obtain rfl | rfl := among
    all_goals exact (Leaves.alt_right (stops_of_judge (n := 100) (by cbv)) (.alt_right
      (stops_of_judge (n := 100) (by cbv)) (.alt_left (.node (.seq (stays_of_judge (n := 100)
        (by cbv)) (.seq (stays_of_judge (n := 100) (by cbv)) (const.seq
          (elements.alt_left.seq semi)))))))).mono (by omega)
  exact member.call

theorem isMember_const {name value : List Char} (word : IsWord name)
    (expression : IsExpression value) :
    IsMember (constOpening ++ ' ' :: (name ++ ([' ', '=', ' '] ++ (value ++ [';'])))) := by
  refine ⟨by simp [constOpening], fun gap among rest => ?_⟩
  have text : gap ++ (constOpening ++ ' ' :: (name ++ ([' ', '=', ' '] ++ (value ++ [';']))) ++
      rest) = gap ++ (constOpening ++ ([' '] ++ (name ++ ([' ', '='] ++ ([' '] ++
        (value ++ ([';'] ++ rest))))))) := by simp
  have last : grammar.Leaves 100 (.many (.seq (.sign ",") (.node "const_element"
      (Rule.sequence [Grammar.Php.name, op ["="], reads .expression])))) ([';'] ++ rest)
      ([';'] ++ rest) := stays_of_judge (by cbv)
  have mark (text : List Char) : grammar.Leaves 100 (op ["="]) ([' ', '='] ++ ([' '] ++ text))
      ([' '] ++ text) := leaves_of_judge [' ', '='] (by cbv)
  have value_ := expression [' '] space_mem_blanks [';'] (.head _) rest
  have element := (leaves_name space_mem_blanks word
    (Scan.stopsAt_cons (by decide) _)).seq ((mark _).seq value_)
  rw [text]
  refine (leaves_const among (element.node.seq last)).mono ?_
  simp only [depthLimit, List.length_append, List.length_cons]
  omega

def modifierTexts : List (List Char) :=
  ["\n    public", "\n    public final", "\n    public static", "\n    public final static"].map
    String.toList

def functionWord : List Char := [' ', 'f', 'u', 'n', 'c', 't', 'i', 'o', 'n']

def methodEnd : Rule Grammar.Php.Name :=
  Rule.sequence [.field "name" Grammar.Php.name, .field "parameters" (reads .parameters),
    returnType, ended (.field "body" (reads .body))]

theorem leaves_method {gap modifiers : List Char} (among : gap ∈ breaks)
    (worded : modifiers ∈ modifierTexts) {n : Nat} {w text rest : List Char} (word : IsWord w)
    (behind : grammar.Leaves n methodEnd ([' '] ++ (w ++ text)) rest) :
    grammar.Leaves (max n 200 + 15) (reads .member)
      (gap ++ (modifiers ++ (functionWord ++ ([' '] ++ (w ++ text))))) rest := by
  have reference : grammar.Leaves 3 reference ([' '] ++ (w ++ text)) ([' '] ++ (w ++ text)) :=
    .opt_stays (.node (stops_op space_mem_blanks word _ text))
  generalize w ++ text = tail at behind reference ⊢
  have function : grammar.Leaves 200 (.word "function") (functionWord ++ ([' '] ++ tail))
      ([' '] ++ tail) := leaves_of_judge functionWord (by cbv)
  simp only [breaks, modifierTexts, List.map_cons, List.map_nil, List.mem_cons,
    List.not_mem_nil, or_false] at among worded
  have lead : grammar.Leaves 200 memberModifiers
      (gap ++ (modifiers ++ (functionWord ++ ([' '] ++ tail)))) (functionWord ++ ([' '] ++ tail)) := by
    obtain rfl | rfl := among <;> obtain rfl | rfl | rfl | rfl := worded
    · exact leaves_of_judge "\n    public".toList (by cbv)
    · exact leaves_of_judge "\n    public final".toList (by cbv)
    · exact leaves_of_judge "\n    public static".toList (by cbv)
    · exact leaves_of_judge "\n    public final static".toList (by cbv)
    · exact leaves_of_judge ('\n' :: "\n    public".toList) (by cbv)
    · exact leaves_of_judge ('\n' :: "\n    public final".toList) (by cbv)
    · exact leaves_of_judge ('\n' :: "\n    public static".toList) (by cbv)
    · exact leaves_of_judge ('\n' :: "\n    public final static".toList) (by cbv)
  have member : grammar.Leaves (max n 200 + 14) (grammar.rule .member)
      (gap ++ (modifiers ++ (functionWord ++ ([' '] ++ tail)))) rest := by
    obtain rfl | rfl := among <;> obtain rfl | rfl | rfl | rfl := worded
    all_goals exact (Leaves.alt_right (stops_of_judge (n := 200) (by cbv)) (.alt_right
      (stops_of_judge (n := 200) (by cbv)) (.alt_right (stops_of_judge (n := 200) (by cbv))
        (.alt_left (.node (.seq (stays_of_judge (n := 200) (by cbv)) (lead.seq
          (function.seq (reference.seq behind))))))))).mono (by omega)
  exact member.call

def returnChars (type : Option String) : List Char :=
  match typeShown? type silent with
  | some t => [':', ' '] ++ t.toList
  | none => []

def endings : List (List Char) := [[';'], ['\n', ' ', ' ', ' ', ' ', '\x7b']]

theorem leaves_returnChars {type : Option String}
    (read : ∀ t, typeShown? type silent = some t → IsType t.toList) {ending : List Char}
    (among : ending ∈ endings) (rest : List Char) :
    grammar.Leaves (depthLimit (returnChars type).length + 110) returnType
      (returnChars type ++ (ending ++ rest)) (ending ++ rest) := by
  unfold returnChars
  split
  · next t shown =>
    have colon (text : List Char) : grammar.Leaves 100 (op [":"]) ([':'] ++ ([' '] ++ text))
        ([' '] ++ text) := leaves_of_judge [':'] (by cbv)
    have type := read t shown [' '] space_mem_blanks ending
      (by simp only [endings, List.mem_cons, List.not_mem_nil, or_false] at among ⊢; simp [among]) rest
    refine (Leaves.opt ((colon _).seq (.field type))).mono ?_
    simp only [depthLimit, List.length_append]
    omega
  · simp only [endings, List.mem_cons, List.not_mem_nil, or_false] at among
    have none : grammar.Leaves 100 returnType (ending ++ rest) (ending ++ rest) := by
      obtain rfl | rfl := among
      · exact stays_of_judge (by cbv)
      · exact stays_of_judge (by cbv)
    exact none.mono (by omega)

/-- The body of every method, behind its brace. -/
def bodyChars : List Char :=
  "\n        throw new \\BadMethodCallException(\"$\x7b__METHOD__\x7d Not implemented\");\n    \x7d".toList

set_option maxRecDepth 4000 in
theorem leaves_body (rest : List Char) :
    grammar.Leaves 300 (reads .body) (['\n', ' ', ' ', ' ', ' ', '\x7b'] ++ (bodyChars ++ rest)) rest :=
  leaves_of_judge (['\n', ' ', ' ', ' ', ' ', '\x7b'] ++ bodyChars) (by cbv)

/-- A method whose parts can be read: its name, its parameters and its return type. -/
structure IsPlainMethod (m : MethodToken) : Prop where
  name : IsWord m.name.toList
  parameters : ∀ v ∈ m.arguments, IsPlain v
  type : ∀ t, typeShown? m.type silent = some t → IsType t.toList

def headChars (m : MethodToken) : List Char :=
  functionWord ++ ([' '] ++ (m.name.toList ++ ('(' :: (list (m.arguments.map (fun v =>
    (argument v).toList)) ++ ')' :: returnChars m.type))))

def endChars : Mode → List Char
  | .interface => [';']
  | .implementation => ['\n', ' ', ' ', ' ', ' ', '\x7b'] ++ bodyChars

theorem leaves_end (mode : Mode) (rest : List Char) :
    ∃ ending ∈ endings, ∃ tail, endChars mode ++ rest = ending ++ tail ∧
      grammar.Leaves 310 (ended (.field "body" (reads .body))) (ending ++ tail) rest := by
  cases mode with
  | interface =>
    refine ⟨[';'], by simp [endings], rest, rfl, ?_⟩
    have semi : grammar.Leaves 310 (ended (.field "body" (reads .body))) ([';'] ++ rest) rest :=
      leaves_of_judge [';'] (by cbv)
    exact semi
  | implementation =>
    refine ⟨_, by simp [endings], bodyChars ++ rest, List.append_assoc .., ?_⟩
    exact (Leaves.alt_left (.field (leaves_body rest))).mono (by omega)

theorem isMember_method {m : MethodToken} (plain : IsPlainMethod m) {modifiers : List Char}
    (worded : modifiers ∈ modifierTexts) (mode : Mode) :
    IsMember (modifiers ++ (headChars m ++ endChars mode)) := by
  refine ⟨?_, fun gap among rest => ?_⟩
  · simp [headChars, functionWord]
  · have text : gap ++ (modifiers ++ (headChars m ++ endChars mode) ++ rest) =
        gap ++ (modifiers ++ (functionWord ++ ([' '] ++ (m.name.toList ++ ('(' ::
          (list (m.arguments.map (fun v => (argument v).toList)) ++ ')' :: (returnChars m.type ++
            (endChars mode ++ rest)))))))) := by simp [headChars]
    obtain ⟨ending, closes, tail, whole, ended⟩ := leaves_end mode rest
    have each : ∀ p ∈ m.arguments.map (fun v => (argument v).toList), IsParameter p := by
      simpa using fun v member => isParameter_argument (plain.parameters v member)
    have parameters := leaves_parameters each (returnChars m.type ++ (ending ++ tail))
    have ends : EndsWord ('(' :: (list (m.arguments.map (fun v => (argument v).toList)) ++ ')' ::
        (returnChars m.type ++ (ending ++ tail)))) := Scan.stopsAt_cons (by decide) _
    have named := leaves_name space_mem_blanks plain.name ends
    have behind : grammar.Leaves _ methodEnd _ _ := named.field.seq (parameters.field.seq
      ((leaves_returnChars plain.type closes tail).seq ended))
    rw [text, whole]
    refine (leaves_method among worded plain.name behind).mono ?_
    simp only [depthLimit, headChars, List.length_append, List.length_cons]
    omega

abbrev Members : List Char → Prop := grammar.Parts (reads .member) breaks

/-- A constant whose parts can be read: its name and its value. -/
structure IsPlainConstant (c : VarToken) : Prop where
  name : IsWord c.name.toList
  value : ∃ v, c.value = some v ∧ IsExpression v.toList

theorem isMember_constant {c : VarToken} (plain : IsPlainConstant c) :
    IsMember ('\n' :: (constant c).toList) := by
  obtain ⟨v, value, expression⟩ := plain.value
  have text : '\n' :: (constant c).toList =
      constOpening ++ ' ' :: (c.name.toList ++ ([' ', '=', ' '] ++ (v.toList ++ [';']))) := by
    simp [constant, value, pad, constOpening]
  rw [text]
  exact isMember_const plain.name expression

def modifierChars (mode : Mode) (m : MethodToken) : List Char :=
  "\n    public".toList ++ (if mode.hasBodies && m.isReadonly then " final".toList else []) ++
    (if m.isStatic then " static".toList else [])

theorem modifierChars_mem (mode : Mode) (m : MethodToken) :
    modifierChars mode m ∈ modifierTexts := by
  unfold modifierChars
  split <;> split
  all_goals decide

theorem toList_signature (mode : Mode) (m : MethodToken) :
    '\n' :: (pad ++ signature mode m).toList = modifierChars mode m ++ headChars m := by
  have arguments : (", ".intercalate (m.arguments.map argument)).toList =
      list (m.arguments.map (fun v => (argument v).toList)) := by
    rw [toList_list, List.map_map]
    simp only [Function.comp_def]
  unfold signature modifierChars headChars returnChars
  rw [← arguments]
  generalize (", ".intercalate (m.arguments.map argument)) = written
  generalize typeShown? m.type silent = shown
  generalize (mode.hasBodies && m.isReadonly) = final
  cases final <;> cases m.isStatic <;> cases shown
  all_goals simp [pad, functionWord]

theorem below_body :
    below [pad ++ "\x7b", pad ++ pad ++
      "throw new \\BadMethodCallException(\"$\x7b__METHOD__\x7d Not implemented\");",
      pad ++ "\x7d"] = endChars .implementation := by decide +kernel

theorem members_methods {source : EntityToken} {mode : Mode}
    (plain : ∀ m ∈ methods source mode, IsPlainMethod m) (filled : methodLines source mode ≠ [])
    {gap : List Char} (among : gap ∈ breaks) :
    Members (gap ++ below (methodLines source mode)) := by
  have written : ∀ m ∈ methods source mode,
      IsMember (modifierChars mode m ++ (headChars m ++ endChars mode)) := fun m member =>
    isMember_method (plain m member) (modifierChars_mem mode m) mode
  cases mode with
  | interface =>
    refine parts_lines ?_ among filled
    intro l member
    obtain ⟨s, there, rfl⟩ := List.mem_map.1 member
    obtain ⟨m, inside, rfl⟩ := List.mem_map.1 there
    have text : '\n' :: (pad ++ signature .interface m ++ ";").toList =
        modifierChars .interface m ++ (headChars m ++ endChars .interface) := by
      rw [← List.append_assoc, ← toList_signature]
      simp [endChars]
    rw [text]
    exact written m inside
  | implementation =>
    refine parts_spaced ?_ among ?_
    · intro g member
      obtain ⟨opening, there, rfl⟩ := List.mem_map.1 member
      obtain ⟨s, signed, rfl⟩ := List.mem_map.1 there
      obtain ⟨m, inside, rfl⟩ := List.mem_map.1 signed
      have text : below ([signature .implementation m, "\x7b"].map (pad ++ ·) ++
          [pad ++ pad ++ "throw new \\BadMethodCallException(\"$\x7b__METHOD__\x7d Not implemented\");",
            pad ++ "\x7d"]) =
          modifierChars .implementation m ++ (headChars m ++ endChars .implementation) := by
        calc
          _ = '\n' :: (pad ++ signature .implementation m).toList ++ endChars .implementation := by
            rw [← below_body]
            rfl
          _ = _ := by rw [toList_signature, List.append_assoc]
      rw [text]
      exact written m inside
    · exact fun none => filled (congrArg spaced none)

end CodeOutline.Scaffold.Php
