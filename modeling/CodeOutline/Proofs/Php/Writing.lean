import CodeOutline.Proofs.Php.Members

set_option autoImplicit false

namespace CodeOutline.Scaffold.Php

open Syntax
open Grammar.Php
open Grammar (Leaves Stops depthLimit leaves_of_judge nil_mem_blanks space_mem_blanks stays_of_judge
  stops_of_judge)

abbrev IsStatement : List Char → Prop := grammar.IsPart (reads .statement) [[]]

def declareChars : List Char := '\n' :: "declare(strict_types=1);".toList

theorem isStatement_declare : IsStatement declareChars := by
  refine ⟨by decide, fun gap among rest => ?_⟩
  obtain rfl := List.mem_singleton.1 among
  have read : grammar.Leaves 300 (reads .statement) (declareChars ++ rest) rest :=
    leaves_of_judge declareChars (by cbv)
  exact read.mono (by simp only [depthLimit]; omega)

/-- The line breaks and the word in front of a namespace. -/
def spaceWord : List Char :=
  ['\n', '\n', 'n', 'a', 'm', 'e', 's', 'p', 'a', 'c', 'e']

theorem isStatement_namespace {ns : List Char} (path : IsPath ns) :
    IsStatement (spaceWord ++ ([' '] ++ (ns ++ [';']))) := by
  refine ⟨by simp, fun gap among rest => ?_⟩
  obtain rfl := List.mem_singleton.1 among
  have text : [] ++ (spaceWord ++ ([' '] ++ (ns ++ [';'])) ++ rest) =
      spaceWord ++ ([' '] ++ (ns ++ ([';'] ++ rest))) := by simp
  have ends : EndsName ([';'] ++ rest) := ⟨Scan.stopsAt_cons (by decide) _, by simp⟩
  have named := leaves_path space_mem_blanks path ends "namespace_name"
  have semi : grammar.Leaves 100 semicolon ([';'] ++ rest) rest := leaves_of_judge [';'] (by cbv)
  rw [text]
  generalize ns ++ ([';'] ++ rest) = tail at named
  have word : grammar.Leaves 100 (.word "namespace") (spaceWord ++ ([' '] ++ tail)) ([' '] ++ tail) :=
    leaves_of_judge spaceWord (by cbv)
  have read : grammar.Leaves 120 (grammar.rule .statement) (spaceWord ++ ([' '] ++ tail)) rest :=
    (Leaves.alt_right (stops_of_judge (n := 100) (by cbv)) (.alt_left (.node
      (word.seq (.alt_left (named.field.seq semi)))))).mono (by omega)
  exact read.call.mono (by simp only [depthLimit]; omega)

def useWord : List Char := ['\n', '\n', 'u', 's', 'e']

def useKinds : List String := ["function", "const"]

section Use

variable {full rest : List Char} (path : IsPath full)

include path

theorem leaves_absolute (ends : EndsName rest) :
    grammar.Leaves 2 className ('\\' :: (full ++ rest)) rest := by
  have spelled := (Scan.takes_text "\\" (full ++ rest)).seq (takes_pathScan path ends)
  have gap := gap_of_opens nil_mem_blanks (opens_cons (c := '\\') (by decide) (full ++ rest))
  have named := Grammar.leaves_token (a := .leaf "qualified_name" qualifiedScan) rfl gap
    (.alt_left spelled)
  exact named.alt_left.mono (by omega)

omit path in
theorem kinds_of_word {w : List Char} (word : IsWord w) {d : Char} (ends : isNameChar d = false)
    (tail : List Char) :
    grammar.Leaves 3 (Rule.words useKinds) ([' '] ++ (w ++ d :: tail)) (d :: tail) ∨
      grammar.Stops 3 (Rule.words useKinds) ([' '] ++ (w ++ d :: tail)) := by
  have gap := gap_of_isWord space_mem_blanks word (d :: tail)
  have lower : ∀ s ∈ useKinds, ∀ c ∈ s.toList, c.toLower = c ∧ isNameChar c = true :=
    small_of_all (by decide)
  have fits (s : String) (same : w.map Char.toLower = s.toList) :
      grammar.Leaves 1 (.word s) ([' '] ++ (w ++ d :: tail)) (d :: tail) :=
    Grammar.leaves_word (g := grammar) same ends gap
  have other (s : String) (member : s ∈ useKinds) (apart : w.map Char.toLower ≠ s.toList) :
      grammar.Stops 1 (.word s) ([' '] ++ (w ++ d :: tail)) := by
    refine Grammar.stops_word (fun c inside => (lower s member c inside).1)
      (fun c inside => isNameChar_of_toLower (lower s member _ inside).2) gap ?_
    have first : (w ++ d :: tail).takeWhile isNameChar = w :=
      Scan.takeWhile_append_of_stopsAt word.all (Scan.stopsAt_cons ends tail)
    have whole : (w ++ d :: tail).takeWhile grammar.isWordChar = w := first
    rwa [whole]
  by_cases function : w.map Char.toLower = "function".toList
  · exact .inl ((fits _ function).alt_left.mono (by omega))
  · have first := other "function" (by simp [useKinds]) function
    by_cases const : w.map Char.toLower = "const".toList
    · exact .inl ((Leaves.alt_right first (fits _ const)).mono (by omega))
    · exact .inr ((Stops.alt first (other "const" (by simp [useKinds]) const)).mono (by omega))

/-- In front of an import stands a blank, or the backslash behind a first part that was taken for
the kind of the import. -/
theorem leaves_useKind (rest : List Char) :
    ∃ gap ∈ [[' '], ['\\']], ∃ full', IsPath full' ∧
      grammar.Leaves 20 useKind ([' '] ++ (full ++ ([';'] ++ rest)))
        (gap ++ (full' ++ ([';'] ++ rest))) := by
  obtain ⟨w, ws, word, words, rfl⟩ := path
  have ends : EndsName ([';'] ++ rest) := ⟨Scan.stopsAt_cons (by decide) _, by simp⟩
  cases ws with
  | nil =>
    refine ⟨[' '], by simp, _, ⟨w, [], word, words, rfl⟩, ?_⟩
    rw [List.flatMap_nil, List.append_nil]
    have none : grammar.Stops 10 (.ahead (.alt className (.sign "\\"))) ([';'] ++ rest) :=
      stops_of_judge (by cbv)
    rcases kinds_of_word word (d := ';') (by decide) rest with takes | stops
    · exact (Leaves.opt_stays (.seq_right takes none)).mono (by omega)
    · exact Leaves.mono (n := 5) (.opt_stays (.seq_left stops)) (by omega)
  | cons v vs =>
    rw [List.forall_mem_cons] at words
    have inner : IsPath (v ++ vs.flatMap ('\\' :: ·)) := ⟨v, vs, words.1, words.2, rfl⟩
    have text : [' '] ++ (w ++ (v :: vs).flatMap ('\\' :: ·) ++ ([';'] ++ rest)) =
        [' '] ++ (w ++ '\\' :: (v ++ vs.flatMap ('\\' :: ·) ++ ([';'] ++ rest))) := by simp
    rcases kinds_of_word word (d := '\\') (by decide)
      (v ++ vs.flatMap ('\\' :: ·) ++ ([';'] ++ rest)) with takes | stops
    · refine ⟨['\\'], by simp, _, inner, ?_⟩
      rw [text]
      exact (Leaves.opt (takes.seq (.ahead (.alt_left (leaves_absolute inner ends))))).mono
        (by omega)
    · refine ⟨[' '], by simp, _, ⟨w, v :: vs, word, List.forall_mem_cons.2 words, rfl⟩, ?_⟩
      rw [text]
      exact Leaves.mono (n := 5) (.opt_stays (.seq_left stops)) (by omega)

theorem isStatement_use : IsStatement (useWord ++ ([' '] ++ (full ++ [';']))) := by
  refine ⟨by simp, fun gap among rest => ?_⟩
  obtain rfl := List.mem_singleton.1 among
  have text : [] ++ (useWord ++ ([' '] ++ (full ++ [';'])) ++ rest) =
      useWord ++ ([' '] ++ (full ++ ([';'] ++ rest))) := by simp
  have ends : EndsName ([';'] ++ rest) := ⟨Scan.stopsAt_cons (by decide) _, by simp⟩
  have semi : grammar.Leaves 100 semicolon ([';'] ++ rest) rest := leaves_of_judge [';'] (by cbv)
  obtain ⟨gap, follows, full', path', kind⟩ := leaves_useKind path rest
  have noMark : grammar.Stops 20 (.sign "\\") ([';'] ++ rest) := stops_of_judge (by cbv)
  have noAlias : grammar.Leaves 20 (Rule.opt (.seq (.word "as") Grammar.Php.name)) ([';'] ++ rest)
      ([';'] ++ rest) := stays_of_judge (by cbv)
  have noMore : grammar.Leaves 20 (.many (.seq (.sign ",") (useClause .done))) ([';'] ++ rest)
      ([';'] ++ rest) := stays_of_judge (by cbv)
  have group : grammar.Stops 30 useGroup (gap ++ (full' ++ ([';'] ++ rest))) := by
    simp only [List.mem_cons, List.not_mem_nil, or_false] at follows
    obtain rfl | rfl := follows
    · have plain : grammar.Stops 1 (.sign "\\") ([' '] ++ (full' ++ ([';'] ++ rest))) := by
        obtain ⟨c, cs, rfl, start⟩ := path'.start
        refine Grammar.stops_token rfl (gap_of_opens space_mem_blanks (opens_word start _)) ?_
        refine Scan.text_eq_none (fun head => ?_) (by decide)
        obtain rfl : '\\' = c := Option.some.inj head
        exact absurd start (by decide)
      exact Stops.mono (.seq_right (.opt_stays plain) (.seq_right
        (leaves_path space_mem_blanks path' ends _) (.seq_left noMark))) (by omega)
    · have slash : grammar.Leaves 20 (Rule.opt (.sign "\\")) (['\\'] ++ (full' ++ ([';'] ++ rest)))
          (full' ++ ([';'] ++ rest)) := leaves_of_judge ['\\'] (by cbv)
      exact Stops.mono (.seq_right slash (.seq_right (leaves_path (.head _) path' ends _)
        (.seq_left noMark))) (by omega)
  have clause : grammar.Leaves 40 (Rule.commas (useClause .done))
      (gap ++ (full' ++ ([';'] ++ rest))) ([';'] ++ rest) := by
    have named : grammar.Leaves 3 className (gap ++ (full' ++ ([';'] ++ rest))) ([';'] ++ rest) := by
      simp only [List.mem_cons, List.not_mem_nil, or_false] at follows
      obtain rfl | rfl := follows
      · exact leaves_className space_mem_blanks path' ends
      · exact (leaves_absolute path' ends).mono (by omega)
    have done : grammar.Leaves 1 .done (gap ++ (full' ++ ([';'] ++ rest)))
      (gap ++ (full' ++ ([';'] ++ rest))) := stays_of_judge rfl
    exact Leaves.mono (.seq (.node (done.seq (named.seq noAlias))) noMore) (by omega)
  rw [text]
  generalize full ++ ([';'] ++ rest) = tail at kind
  have word : grammar.Leaves 100 (.word "use") (useWord ++ ([' '] ++ tail)) ([' '] ++ tail) :=
    leaves_of_judge useWord (by cbv)
  have read : grammar.Leaves 120 (grammar.rule .statement) (useWord ++ ([' '] ++ tail)) rest :=
    (Leaves.alt_right (stops_of_judge (n := 100) (by cbv)) (.alt_right (stops_of_judge (n := 100)
      (by cbv)) (.alt_left (.node (word.seq (kind.seq ((Leaves.alt_right group clause).seq
        semi))))))).mono (by omega)
  exact read.call.mono (by simp only [depthLimit]; omega)

end Use

/-! Classes and interfaces -/

def openBrace : List Char := ['\n', '\x7b']

def closeBrace : List Char := ['\n', '\x7d']

theorem leaves_members {cs : List Char} (all : Members cs) (rest : List Char) :
    grammar.Leaves (depthLimit cs.length + 310) members
      (openBrace ++ (cs ++ (closeBrace ++ rest))) rest := by
  have opens (text : List Char) : grammar.Leaves 300 (.sign "\x7b") (openBrace ++ text) text :=
    leaves_of_judge openBrace (by cbv)
  have closes : grammar.Leaves 300 (.sign "\x7d") (closeBrace ++ rest) rest :=
    leaves_of_judge closeBrace (by cbv)
  have stops : grammar.Stops 300 (reads .member) (closeBrace ++ rest) := stops_of_judge (by cbv)
  have inside := all.leaves stops (by decide)
  exact (Leaves.field (.node ((opens _).seq (inside.seq closes)))).mono
    (by simp only [depthLimit]; omega)

def implementsWord : List Char := [' ', 'i', 'm', 'p', 'l', 'e', 'm', 'e', 'n', 't', 's']

def IsImplemented (cs : List Char) : Prop :=
  cs = [] ∨ ∃ w, IsWord w ∧ cs = implementsWord ++ ([' '] ++ w)

theorem leaves_implemented {cs : List Char} (interface : IsImplemented cs) (rest : List Char) :
    EndsWord (cs ++ (openBrace ++ rest)) ∧
    grammar.Leaves 100 extended (cs ++ (openBrace ++ rest)) (cs ++ (openBrace ++ rest)) ∧
    grammar.Leaves 110 implemented (cs ++ (openBrace ++ rest)) (openBrace ++ rest) := by
  obtain rfl | ⟨w, word, rfl⟩ := interface
  · exact ⟨Scan.stopsAt_cons (by decide) _, stays_of_judge (by cbv), stays_of_judge (by cbv)⟩
  · have ends : EndsName (openBrace ++ rest) :=
      ⟨Scan.stopsAt_cons (by decide) _, by simp [openBrace]⟩
    have named := leaves_className space_mem_blanks word.isPath ends
    have single : grammar.Leaves 10 (.many (.seq (.sign ",") className)) (openBrace ++ rest)
        (openBrace ++ rest) := stays_of_judge (by cbv)
    rw [List.append_assoc, List.append_assoc]
    generalize w ++ (openBrace ++ rest) = tail at named
    have word : grammar.Leaves 100 (.word "implements") (implementsWord ++ ([' '] ++ tail))
        ([' '] ++ tail) := leaves_of_judge implementsWord (by cbv)
    refine ⟨Scan.stopsAt_cons (by decide) _, stays_of_judge (by cbv), ?_⟩
    exact (Leaves.opt (.node (word.seq (named.seq single)))).mono (by omega)

def classWords : List (List Char) :=
  [['\n', '\n'], ['\n', '\n', 'f', 'i', 'n', 'a', 'l', ' '],
    ['\n', '\n', 'a', 'b', 's', 't', 'r', 'a', 'c', 't', ' ']].map (· ++ ['c', 'l', 'a', 's', 's'])

theorem isStatement_class {words name interface cs : List Char} (worded : words ∈ classWords)
    (word : IsWord name) (implements : IsImplemented interface) (all : Members cs) :
    IsStatement (words ++ ([' '] ++ (name ++ (interface ++ (openBrace ++ (cs ++ closeBrace)))))) := by
  refine ⟨by simp, fun gap among rest => ?_⟩
  obtain rfl := List.mem_singleton.1 among
  have text : [] ++ (words ++ ([' '] ++ (name ++ (interface ++ (openBrace ++ (cs ++ closeBrace))))) ++
      rest) =
        words ++ ([' '] ++ (name ++ (interface ++ (openBrace ++ (cs ++ (closeBrace ++ rest)))))) := by
    simp
  obtain ⟨ends, extended, implemented⟩ := leaves_implemented implements (cs ++ (closeBrace ++ rest))
  have named : grammar.Leaves 2 (.field "name" Grammar.Php.name) _ _ :=
    .field (leaves_name space_mem_blanks word ends)
  have head := named.seq (extended.seq (implemented.seq (leaves_members all rest)))
  rw [text]
  generalize name ++ (interface ++ (openBrace ++ (cs ++ (closeBrace ++ rest)))) = tail at head
  simp only [classWords, List.map_cons, List.map_nil, List.mem_cons, List.not_mem_nil,
    or_false] at worded
  have modified : ∃ text₁,
      grammar.Leaves 100 (modifiers ["final", "abstract", "readonly"]) (words ++ ([' '] ++ tail))
        text₁ ∧ grammar.Leaves 100 (.word "class") text₁ ([' '] ++ tail) := by
    obtain rfl | rfl | rfl := worded
    · exact ⟨_, stays_of_judge (by cbv), leaves_of_judge ['\n', '\n', 'c', 'l', 'a', 's', 's']
        (by cbv)⟩
    · exact ⟨_, leaves_of_judge ['\n', '\n', 'f', 'i', 'n', 'a', 'l'] (by cbv),
        leaves_of_judge [' ', 'c', 'l', 'a', 's', 's'] (by cbv)⟩
    · exact ⟨_, leaves_of_judge ['\n', '\n', 'a', 'b', 's', 't', 'r', 'a', 'c', 't'] (by cbv),
        leaves_of_judge [' ', 'c', 'l', 'a', 's', 's'] (by cbv)⟩
  obtain ⟨text₁, modified, word⟩ := modified
  have read : grammar.Leaves (depthLimit cs.length + 400) (grammar.rule .statement)
      (words ++ ([' '] ++ tail)) rest := by
    obtain rfl | rfl | rfl := worded
    all_goals exact Leaves.mono (.alt_right (stops_of_judge (n := 100) (by cbv)) (.alt_right
      (stops_of_judge (n := 100) (by cbv)) (.alt_right (stops_of_judge (n := 100) (by cbv))
        (.alt_right (stops_of_judge (n := 100) (by cbv)) (.alt_left (.node (.seq
          (stays_of_judge (n := 100) (by cbv)) (modified.seq (word.seq head))))))))) (by omega)
  refine read.call.mono ?_
  simp only [depthLimit, List.length_append, openBrace, closeBrace, List.length_cons]
  omega

def interfaceWord : List Char :=
  ['\n', '\n', 'i', 'n', 't', 'e', 'r', 'f', 'a', 'c', 'e']

theorem isStatement_interface {name cs : List Char} (word : IsWord name) (all : Members cs) :
    IsStatement (interfaceWord ++ ([' '] ++ (name ++ (openBrace ++ (cs ++ closeBrace))))) := by
  refine ⟨by simp [interfaceWord], fun gap among rest => ?_⟩
  obtain rfl := List.mem_singleton.1 among
  have text : [] ++ (interfaceWord ++ ([' '] ++ (name ++ (openBrace ++ (cs ++ closeBrace)))) ++
      rest) = interfaceWord ++ ([' '] ++ (name ++ (openBrace ++ (cs ++ (closeBrace ++ rest))))) := by
    simp
  obtain ⟨ends, extended, -⟩ := leaves_implemented (.inl rfl) (cs ++ (closeBrace ++ rest))
  have named : grammar.Leaves 2 (.field "name" Grammar.Php.name) _ _ :=
    .field (leaves_name space_mem_blanks word ends)
  have head := named.seq (extended.seq (leaves_members all rest))
  rw [text]
  simp only [List.nil_append] at head
  generalize name ++ (openBrace ++ (cs ++ (closeBrace ++ rest))) = tail at head
  have word : grammar.Leaves 100 (.word "interface") (interfaceWord ++ ([' '] ++ tail))
      ([' '] ++ tail) := leaves_of_judge interfaceWord (by cbv)
  have read : grammar.Leaves (depthLimit cs.length + 400) (grammar.rule .statement)
      (interfaceWord ++ ([' '] ++ tail)) rest :=
    Leaves.mono (.alt_right (stops_of_judge (n := 100) (by cbv)) (.alt_right
      (stops_of_judge (n := 100) (by cbv)) (.alt_right (stops_of_judge (n := 100) (by cbv))
        (.alt_right (stops_of_judge (n := 100) (by cbv)) (.alt_right (stops_of_judge (n := 100)
          (by cbv)) (.alt_right (stops_of_judge (n := 100) (by cbv)) (.alt_left (.node (.seq
            (stays_of_judge (n := 100) (by cbv)) (word.seq head)))))))))) (by omega)
  refine read.call.mono ?_
  simp only [depthLimit, List.length_append, openBrace, closeBrace, List.length_cons]
  omega

/-! Files -/

theorem members_source {source : EntityToken} {mode : Mode}
    (constants : ∀ c ∈ publicOnly source.constants, IsPlainConstant c)
    (plain : ∀ m ∈ methods source mode, IsPlainMethod m) :
    Members (below (separate ((publicOnly source.constants).map constant)
      (methodLines source mode))) := by
  refine parts_separate (fun filled => ?_) fun filled gap among =>
    members_methods plain filled among
  refine parts_lines ?_ nil_mem_breaks filled
  intro l member
  obtain ⟨c, there, rfl⟩ := List.mem_map.1 member
  exact isMember_constant (constants c there)

/-- The words of a class in front of its name. -/
def wordsOf (source : EntityToken) : List Char :=
  (if source.isReadonly then ['\n', '\n', 'f', 'i', 'n', 'a', 'l', ' ']
    else if source.isAbstract then
      ['\n', '\n', 'a', 'b', 's', 't', 'r', 'a', 'c', 't', ' ']
    else ['\n', '\n']) ++ ['c', 'l', 'a', 's', 's']

theorem wordsOf_mem (source : EntityToken) : wordsOf source ∈ classWords := by
  unfold wordsOf
  split
  · decide
  · split
    · decide
    · decide

theorem isImplemented_implementsText {interface : Option String}
    (word : ∀ i, interface = some i → IsWord i.toList) :
    IsImplemented (implementsText interface).toList := by
  cases interface with
  | none => exact .inl rfl
  | some i =>
    have text : (implementsText (some i)).toList = implementsWord ++ ([' '] ++ i.toList) := by
      simp [implementsText, implementsWord]
    exact .inr ⟨i.toList, word i rfl, text⟩

abbrev Statements : List Char → Prop := grammar.Parts (reads .statement) [[]]

theorem statements_cons {s cs : List Char} (first : IsStatement s) (others : Statements cs) :
    Statements (s ++ cs) := .cons (.head _) first others

theorem statements_block {line : Option String}
    (each : ∀ l, line = some l → IsStatement ('\n' :: '\n' :: l.toList)) {tail : List Char}
    (others : Statements ('\n' :: tail)) : Statements ('\n' :: (below (block line) ++ tail)) := by
  cases line with
  | none => exact others
  | some l =>
    have text : '\n' :: (below (block (some l)) ++ tail) =
        '\n' :: '\n' :: l.toList ++ '\n' :: tail := by simp [below, block]
    rw [text]
    exact statements_cons (each l rfl) others

section File

variable {source : EntityToken} {kind : EntityKind} {mode : Mode} {name : String}

theorem isStatement_entity (word : IsWord name.toList)
    (interface : ∀ i, implemented? source kind mode separator = some i → IsWord i.toList)
    {inner : List String} (all : Members (below inner)) :
    IsStatement ('\n' :: below ([heading name source mode ++
      implementsText (implemented? source kind mode separator), "\x7b"] ++ inner ++ ["\x7d"])) := by
  cases mode with
  | interface =>
    have text : '\n' :: below ([heading name source .interface ++
        implementsText (implemented? source kind .interface separator), "\x7b"] ++ inner ++
          ["\x7d"]) =
        interfaceWord ++ ([' '] ++ (name.toList ++ (openBrace ++ (below inner ++ closeBrace)))) := by
      simp [below, heading, implemented?, Mode.hasBodies, interfaceWord, openBrace, closeBrace,
        implementsText]
    rw [text]
    exact isStatement_interface word all
  | implementation =>
    have implements := isImplemented_implementsText interface
    generalize implementsText (implemented? source kind .implementation separator) = ending
      at implements
    have text : '\n' :: below ([heading name source .implementation ++ ending, "\x7b"] ++ inner ++
          ["\x7d"]) =
        wordsOf source ++ ([' '] ++ (name.toList ++ (ending.toList ++ (openBrace ++
          (below inner ++ closeBrace))))) := by
      unfold heading wordsOf
      cases source.isReadonly <;> cases source.isAbstract
      all_goals simp [below, openBrace, closeBrace]
    rw [text]
    exact isStatement_class (wordsOf_mem source) word implements all

def linesBelow (name : String) (space imported : Option String) (source : EntityToken)
    (kind : EntityKind) (mode : Mode) (strict : Bool) : List String :=
  (if strict then ["declare(strict_types=1);"] else []) ++ [""] ++
    block (space.map (fun ns => "namespace " ++ ns ++ ";")) ++
    block (imported.map (fun full => "use " ++ full ++ ";")) ++
    ([heading name source mode ++ implementsText (implemented? source kind mode separator),
      "\x7b"] ++ separate ((publicOnly source.constants).map constant) (methodLines source mode) ++
      ["\x7d"])

theorem statements_lines (word : IsWord name.toList) {space imported : Option String}
    (spaced : ∀ ns, space = some ns → IsPath ns.toList)
    (named : ∀ full, imported = some full → IsPath full.toList)
    (interface : ∀ i, implemented? source kind mode separator = some i → IsWord i.toList)
    (constants : ∀ c ∈ publicOnly source.constants, IsPlainConstant c)
    (plain : ∀ m ∈ methods source mode, IsPlainMethod m) (strict : Bool) :
    Statements (below (linesBelow name space imported source kind mode strict)) := by
  have all := members_source constants plain
  have entity := statements_cons (isStatement_entity word interface all) .nil
  rw [List.append_nil] at entity
  have import_ : ∀ l, imported.map (fun full => "use " ++ full ++ ";") = some l →
      IsStatement ('\n' :: '\n' :: l.toList) := by
    intro l made
    obtain ⟨full, there, rfl⟩ := Option.map_eq_some_iff.1 made
    have text : '\n' :: '\n' :: ("use " ++ full ++ ";").toList =
        useWord ++ ([' '] ++ (full.toList ++ [';'])) := by simp [useWord]
    rw [text]
    exact isStatement_use (named full there)
  have space_ : ∀ l, space.map (fun ns => "namespace " ++ ns ++ ";") = some l →
      IsStatement ('\n' :: '\n' :: l.toList) := by
    intro l made
    obtain ⟨ns, there, rfl⟩ := Option.map_eq_some_iff.1 made
    have text : '\n' :: '\n' :: ("namespace " ++ ns ++ ";").toList =
        spaceWord ++ ([' '] ++ (ns.toList ++ [';'])) := by simp [spaceWord]
    rw [text]
    exact isStatement_namespace (spaced ns there)
  have behind := statements_block space_ (statements_block import_ entity)
  unfold linesBelow
  cases strict with
  | false =>
    simpa [below] using behind
  | true =>
    have declared := statements_cons isStatement_declare behind
    simpa [below, declareChars] using declared

def tagChars : List Char := ['<', '?', 'p', 'h', 'p']

theorem read?_statements {cs : List Char} (all : Statements cs) :
    (Grammar.Php.read? (tagChars ++ (cs ++ ['\n']))).isSome = true := by
  have stops : grammar.Stops 400 (reads .statement) ['\n'] := stops_of_judge (by decide +kernel)
  have inside := all.leaves stops (by decide)
  have tag : grammar.Leaves 100 (.leaf "php_tag" tagScan) (tagChars ++ (cs ++ ['\n']))
      (cs ++ ['\n']) := leaves_of_judge tagChars (by cbv)
  have start : textLength (tagChars ++ (cs ++ ['\n'])) = 0 := by cbv
  have lead : grammar.Leaves 1 (.move (fun before _ =>
      some (before.skip (textLength before.rest)))) (tagChars ++ (cs ++ ['\n']))
      (tagChars ++ (cs ++ ['\n'])) := by
    refine Grammar.stays_move fun before c => ?_
    have none : (Cursor.between before (tagChars ++ (cs ++ ['\n']))).skip
        (textLength (tagChars ++ (cs ++ ['\n']))) = .between before (tagChars ++ (cs ++ ['\n'])) := by
      rw [start, Cursor.skip]
    exact congrArg some none
  refine Grammar.read?_isSome "program" (lead.seq (.opt (tag.seq inside))) ?_ (by decide)
  simp only [depthLimit, List.length_append, tagChars, List.length_cons]
  omega

variable {target : String} {options : Options} {space : Option String}

theorem lines_eq (asked : Name.splitTarget target separator options.space = (name, space)) :
    Language.php.lines target source kind mode options =
      "<?php" :: linesBelow name space (imported? source separator mode space options) source kind mode
        options.strict := by
  unfold Language.lines Language.generate generate linesBelow
  rw [map_text_number, asked]
  unfold imported?
  dsimp only
  generalize (if mode.hasBodies then sourceImport? source separator space options else none) =
    imported
  generalize implemented? source kind mode separator = interface
  cases space <;> cases imported <;> cases interface
  all_goals simp [block, implementsText]

/-- What a new file is written from can be read: its name and namespace, the constants and
methods that it carries, and the names of the interface and the import. -/
structure IsPlainSource (name : String) (space : Option String) (source : EntityToken)
    (kind : EntityKind) (mode : Mode) (options : Options) : Prop where
  named : IsWord name.toList
  spaced : ∀ ns, space = some ns → IsPath ns.toList
  imported : ∀ full, imported? source separator mode space options = some full → IsPath full.toList
  interface : ∀ i, implemented? source kind mode separator = some i → IsWord i.toList
  constants : ∀ c ∈ publicOnly source.constants, IsPlainConstant c
  methods : ∀ m ∈ methods source mode, IsPlainMethod m

theorem read?_generate (asked : Name.splitTarget target separator options.space = (name, space))
    (plain : IsPlainSource name space source kind mode options) :
    (Grammar.Php.read?
      (render (Language.php.generate target source kind mode options)).toList).isSome = true := by
  have text : (String.join (("<?php" :: linesBelow name space
      (imported? source separator mode space options) source kind mode options.strict).map
        (· ++ "\n"))).toList =
      tagChars ++ (below (linesBelow name space (imported? source separator mode space options)
        source kind mode options.strict) ++ ['\n']) := by
    have whole := toList_join ("<?php" :: linesBelow name space
      (imported? source separator mode space options) source kind mode options.strict)
    have tag : "<?php".toList = tagChars := by decide
    rw [below, List.flatMap_cons, tag, List.cons_append, List.cons_append] at whole
    rw [(List.cons.inj whole).2, List.append_assoc]
    rfl
  rw [Language.render_generate, lines_eq asked, text]
  exact read?_statements (statements_lines plain.named plain.spaced plain.imported plain.interface
    plain.constants plain.methods options.strict)

end File

end CodeOutline.Scaffold.Php
