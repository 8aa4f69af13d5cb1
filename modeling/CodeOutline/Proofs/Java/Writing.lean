import CodeOutline.Proofs.Java.Members

/-!
A new Java file is read part by part: the package, the import, and the class or interface with its
members.
-/

set_option autoImplicit false

namespace CodeOutline.Scaffold.Java

open Syntax
open Grammar.Java
open Grammar (Leaves Stops depthLimit leaves_of_judge nil_mem_blanks space_mem_blanks stays_of_judge
  stops_of_judge)

variable {gap : List Char}

def gaps : List (List Char) := [[], ['\n', '\n']]

theorem isGap_of_gaps (among : gap ∈ gaps) : IsGap gap := by
  simp only [gaps, List.mem_cons, List.not_mem_nil, or_false] at among
  obtain rfl | rfl := among
  · exact isGap_nil
  · exact isGap_of_all (by decide)

/-- What a file is made of. -/
def item : Rule Grammar.Java.Name := .alt (reads .statement) method

abbrev IsStatement : List Char → Prop := grammar.IsPart item gaps

/-! Packages and imports -/

theorem stops_package {s : String} (keyword : isKeyword s = true) (other : s ≠ "package")
    (gapped : IsGap gap) (rest : List Char) :
    grammar.Stops 10 (.node "package_declaration" (Rule.sequence [annotations, .word "package",
      path, semicolon])) (gap ++ (s.toList ++ ' ' :: rest)) := by
  have word : grammar.Stops 2 (.word "package") (gap ++ (s.toList ++ ' ' :: rest)) :=
    stops_keywords keyword gapped ["package"] (by decide) (by simpa using other) rest
  exact Stops.mono (.node (.seq_right ((letters_of_isKeyword keyword).1.annotations_stay gapped _)
    (.seq_left word))) (by decide)

section Paths

variable {full : List Char} (path : IsPath full)

include path

theorem isStatement_package :
    IsStatement ("package".toList ++ ' ' :: (full ++ [';'])) := by
  refine ⟨by simp, fun gap among rest => ?_⟩
  have gapped := isGap_of_gaps among
  have keyword : isKeyword "package" = true := by decide
  have text : gap ++ ("package".toList ++ ' ' :: (full ++ [';']) ++ rest) =
      gap ++ ("package".toList ++ ' ' :: (full ++ ([';'] ++ rest))) := by simp
  have bare := (letters_of_isKeyword keyword).1.annotations_stay gapped
    (' ' :: (full ++ ([';'] ++ rest)))
  have word := leaves_keyword keyword gapped (full ++ ([';'] ++ rest))
  have named := leaves_path isGap_space path rest
  have semi : grammar.Leaves 100 semicolon ([';'] ++ rest) rest := leaves_of_judge [';'] (by cbv)
  have parsed : grammar.Leaves _ (grammar.rule .statement) _ rest :=
    .alt_left (.node (bare.seq (word.seq (named.seq semi))))
  rw [text]
  refine parsed.call.alt_left.mono ?_
  simp only [depthLimit, List.length_append, List.length_cons]
  omega

theorem isStatement_import :
    IsStatement ("import".toList ++ ' ' :: (full ++ [';'])) := by
  refine ⟨by simp, fun gap among rest => ?_⟩
  have gapped := isGap_of_gaps among
  have keyword : isKeyword "import" = true := by decide
  have text : gap ++ ("import".toList ++ ' ' :: (full ++ [';']) ++ rest) =
      gap ++ ("import".toList ++ ' ' :: (full ++ ([';'] ++ rest))) := by simp
  have word := leaves_keyword keyword gapped (full ++ ([';'] ++ rest))
  have plain : grammar.Stops 2 (.word "static") (' ' :: (full ++ ([';'] ++ rest))) := by
    obtain ⟨w, ws, first, words, rfl⟩ := path
    have other : grammar.Stops 2 (.word "static") ([' '] ++ (w ++ (dotted ws ++ ';' :: rest))) :=
      stops_reserved isGap_space first ["static"] (by decide) (letters_of_all (by decide))
        (endsWord_dotted words rest)
    simpa using other
  have named := leaves_path isGap_space path rest
  have single : grammar.Leaves 100 (Rule.opt (.seq (.sign ".") (.leaf "asterisk" (Scan.text "*"))))
      ([';'] ++ rest) ([';'] ++ rest) := stays_of_judge (by cbv)
  have semi : grammar.Leaves 100 semicolon ([';'] ++ rest) rest := leaves_of_judge [';'] (by cbv)
  have parsed : grammar.Leaves _ (grammar.rule .statement) _ rest :=
    .alt_right (stops_package keyword (by decide) gapped _) (.alt_left (.node
      (word.seq ((Leaves.opt_stays plain).seq (named.seq (single.seq semi))))))
  rw [text]
  refine parsed.call.alt_left.mono ?_
  simp only [depthLimit, List.length_append, List.length_cons]
  omega

end Paths

/-! Classes and interfaces -/

def openBrace : List Char := [' ', '\x7b']

def closeBrace : List Char := ['\n', '\x7d']

theorem leaves_members {mode : Mode} {cs : List Char} (all : Members mode cs) (kind : String)
    (rest : List Char) :
    grammar.Leaves (depthLimit cs.length + 310) (bodied kind (reads (memberName mode)))
      (openBrace ++ (cs ++ (closeBrace ++ rest))) rest := by
  have opens (text : List Char) : grammar.Leaves 300 (.sign "\x7b") (openBrace ++ text) text :=
    leaves_of_judge openBrace (by cbv)
  have closes : grammar.Leaves 300 (.sign "\x7d") (closeBrace ++ rest) rest :=
    leaves_of_judge closeBrace (by cbv)
  have stops : grammar.Stops 300 (reads (memberName mode)) (closeBrace ++ rest) := by
    cases mode with
    | interface => exact stops_of_judge (by cbv)
    | implementation => exact stops_of_judge (by cbv)
  have inside := all.leaves stops (by decide)
  exact (Leaves.field (.node ((opens _).seq (inside.seq closes)))).mono
    (by simp only [depthLimit]; omega)

def implementsWord : List Char := [' ', 'i', 'm', 'p', 'l', 'e', 'm', 'e', 'n', 't', 's']

def IsImplemented (cs : List Char) : Prop :=
  cs = [] ∨ ∃ w, IsWord w ∧ cs = implementsWord ++ ([' '] ++ w)

def superclass : Rule Grammar.Java.Name :=
  Rule.opt (.node "superclass" (.seq (.word "extends") (reads .type)))

theorem leaves_implemented {cs : List Char} (interface : IsImplemented cs) (rest : List Char) :
    EndsWord (cs ++ (openBrace ++ rest)) ∧
      grammar.Leaves 100 typeParameters (cs ++ (openBrace ++ rest)) (cs ++ (openBrace ++ rest)) ∧
      grammar.Leaves 100 superclass (cs ++ (openBrace ++ rest)) (cs ++ (openBrace ++ rest)) ∧
      grammar.Leaves 110 implemented (cs ++ (openBrace ++ rest)) (openBrace ++ rest) := by
  obtain rfl | ⟨w, word, rfl⟩ := interface
  · exact ⟨Scan.stopsAt_cons (by decide) _, stays_of_judge (by cbv), stays_of_judge (by cbv),
      stays_of_judge (by cbv)⟩
  · have ends : EndsWord (openBrace ++ rest) := Scan.stopsAt_cons (by decide) _
    have other : ∀ s ∈ typeSigns, grammar.Stops 1 (.sign s) (openBrace ++ rest) := by
      simp only [typeSigns, List.forall_mem_cons, List.not_mem_nil, false_imp_iff, implies_true,
        and_true]
      refine ⟨?_, ?_, ?_, ?_⟩
      all_goals exact stops_of_judge (by cbv)
    have typed := leaves_typeWord isGap_space word ends other
    have single : grammar.Leaves 10 (.many (.seq (.sign ",") (reads .type))) (openBrace ++ rest)
        (openBrace ++ rest) := stays_of_judge (by cbv)
    rw [List.append_assoc, List.append_assoc]
    generalize w ++ (openBrace ++ rest) = tail at typed
    have word : grammar.Leaves 100 (.word "implements") (implementsWord ++ ([' '] ++ tail))
        ([' '] ++ tail) := leaves_of_judge implementsWord (by cbv)
    refine ⟨Scan.stopsAt_cons (by decide) _, stays_of_judge (by cbv), stays_of_judge (by cbv), ?_⟩
    exact (Leaves.opt (.node (word.seq (typed.seq single)))).mono (by omega)

def headed (s : String) (others : List String) (word : String) (name : List Char) : List Char :=
  modified s others ++ ' ' :: (word.toList ++ ' ' :: name)

section Headings

variable {s : String} {others : List String} {name cs : List Char} (first : s ∈ modifierWords)
  (among : ∀ s ∈ others, s ∈ modifierWords)

include first

theorem leaves_item (gapped : IsGap gap) {n : Nat} {text rest : List Char}
    (declared : grammar.Leaves n (reads .declaration)
      (gap ++ (modified s others ++ ' ' :: text)) rest) :
    grammar.Leaves (max n 20 + 10) item (gap ++ (modified s others ++ ' ' :: text)) rest := by
  have keywords : modifierWords.all isKeyword = true := by decide
  have keyword : isKeyword s = true := List.all_eq_true.1 keywords s first
  have apart : s ≠ "package" ∧ s ≠ "import" := by
    constructor
    all_goals
      rintro rfl
      exact absurd first (by decide)
  obtain ⟨tail, whole⟩ : ∃ tail, modified s others ++ ' ' :: text = s.toList ++ ' ' :: tail := by
    rw [modified, List.append_assoc]
    cases others with
    | nil => exact ⟨text, rfl⟩
    | cons s' others => exact ⟨_, rfl⟩
  rw [whole] at declared ⊢
  have import_ : grammar.Stops 2 (.word "import") (gap ++ (s.toList ++ ' ' :: tail)) :=
    stops_keywords keyword gapped ["import"] (by decide) (by simpa using apart.2) tail
  have parsed : grammar.Leaves _ (grammar.rule .statement) _ rest :=
    .alt_right (stops_package keyword apart.1 gapped tail) (.alt_right (.node (.seq_left import_))
      (.alt_left declared))
  exact parsed.call.alt_left.mono (by omega)

include among

theorem leaves_headModifiers (gapped : IsGap gap) (word : String)
    (told : word ∈ ["class", "interface"]) (text : List Char) :
    grammar.Leaves (others.length + 25) modifiers
      (gap ++ (modified s others ++ ' ' :: (word.toList ++ ' ' :: text)))
      (' ' :: (word.toList ++ ' ' :: text)) := by
  refine leaves_modifiers gapped first among ?_
  simp only [List.mem_cons, List.not_mem_nil, or_false] at told
  obtain rfl | rfl := told
  · exact stops_of_judge (by cbv)
  · exact stops_of_judge (by cbv)

theorem isStatement_class {interface : List Char} (word : IsWord name)
    (implements : IsImplemented interface) (all : Members .implementation cs) :
    IsStatement (headed s others "class" name ++
      (interface ++ (openBrace ++ (cs ++ closeBrace)))) := by
  refine ⟨by simp [headed], fun gap closed rest => ?_⟩
  have gapped := isGap_of_gaps closed
  have text : gap ++ (headed s others "class" name ++ (interface ++ (openBrace ++
      (cs ++ closeBrace))) ++ rest) = gap ++ (modified s others ++ ' ' :: ("class".toList ++ ' ' ::
        (name ++ (interface ++ (openBrace ++ (cs ++ (closeBrace ++ rest))))))) := by simp [headed]
  obtain ⟨ends, parameters, super, implemented⟩ :=
    leaves_implemented implements (cs ++ (closeBrace ++ rest))
  have lead := leaves_headModifiers first among gapped "class" (by decide)
    (name ++ (interface ++ (openBrace ++ (cs ++ (closeBrace ++ rest)))))
  have told := leaves_keyword (s := "class") (by decide) isGap_space
    (name ++ (interface ++ (openBrace ++ (cs ++ (closeBrace ++ rest)))))
  have named := leaves_name isGap_space word ends
  have permitted : grammar.Leaves 100 permitted (openBrace ++ (cs ++ (closeBrace ++ rest)))
      (openBrace ++ (cs ++ (closeBrace ++ rest))) := stays_of_judge (by cbv)
  have body := leaves_members all "class_body" rest
  have parsed : grammar.Leaves _ (grammar.rule .declaration) _ rest :=
    .alt_left (.node (lead.seq (told.seq (named.field.seq (parameters.seq (super.seq
      (implemented.seq (permitted.seq body))))))))
  rw [text]
  refine (leaves_item first gapped parsed.call).mono ?_
  have shorter : others.length ≤ (others.flatMap (fun s => ' ' :: s.toList)).length :=
    length_le_flatMap (by simp) others
  simp only [depthLimit, headed, modified, openBrace, closeBrace, List.length_append,
    List.length_cons]
  omega

theorem isStatement_interface (word : IsWord name) (all : Members .interface cs) :
    IsStatement (headed s others "interface" name ++ (openBrace ++ (cs ++ closeBrace))) := by
  refine ⟨by simp [headed], fun gap closed rest => ?_⟩
  have gapped := isGap_of_gaps closed
  have text : gap ++ (headed s others "interface" name ++ (openBrace ++ (cs ++ closeBrace)) ++
      rest) = gap ++ (modified s others ++ ' ' :: ("interface".toList ++ ' ' ::
        (name ++ (openBrace ++ (cs ++ (closeBrace ++ rest)))))) := by simp [headed]
  obtain ⟨ends, parameters, -, -⟩ := leaves_implemented (.inl rfl) (cs ++ (closeBrace ++ rest))
  have lead := leaves_headModifiers first among gapped "interface" (by decide)
    (name ++ (openBrace ++ (cs ++ (closeBrace ++ rest))))
  have told := leaves_keyword (s := "interface") (by decide) isGap_space
    (name ++ (openBrace ++ (cs ++ (closeBrace ++ rest))))
  have other (w : String) (apart : w ∈ ["class", "enum", "record"]) :
      grammar.Stops 2 (.word w) ([' '] ++ ("interface".toList ++ ' ' ::
        (name ++ (openBrace ++ (cs ++ (closeBrace ++ rest)))))) := by
    have keywords : ∀ w ∈ ["class", "enum", "record"], [w].all isKeyword = true ∧
        "interface" ∉ [w] := by decide
    exact stops_keywords (s := "interface") (by decide) isGap_space [w] (keywords w apart).1
      (keywords w apart).2 _
  have named := leaves_name isGap_space word ends
  have extends_ : grammar.Leaves 100 (Rule.opt (.node "extends_interfaces"
      (.seq (.word "extends") types))) (openBrace ++ (cs ++ (closeBrace ++ rest)))
      (openBrace ++ (cs ++ (closeBrace ++ rest))) := stays_of_judge (by cbv)
  have permitted : grammar.Leaves 100 permitted (openBrace ++ (cs ++ (closeBrace ++ rest)))
      (openBrace ++ (cs ++ (closeBrace ++ rest))) := stays_of_judge (by cbv)
  have body := leaves_members all "interface_body" rest
  have parsed : grammar.Leaves _ (grammar.rule .declaration) _ rest :=
    .alt_right (.node (.seq_right lead (.seq_left (other "class" (by decide)))))
      (.alt_right (.node (.seq_right lead (.seq_left (other "enum" (by decide)))))
      (.alt_right (.node (.seq_right lead (.seq_left (other "record" (by decide)))))
      (.alt_left (.node (lead.seq (told.seq (named.field.seq (parameters.seq (extends_.seq
        (permitted.seq body))))))))))
  rw [text]
  refine (leaves_item first gapped parsed.call).mono ?_
  have shorter : others.length ≤ (others.flatMap (fun s => ' ' :: s.toList)).length :=
    length_le_flatMap (by simp) others
  simp only [depthLimit, headed, modified, openBrace, closeBrace, List.length_append,
    List.length_cons]
  omega

end Headings

/-! Files -/

theorem members_source {source : EntityToken} {mode : Mode}
    (constants : ∀ c ∈ publicOnly source.constants, IsPlainConstant c)
    (plain : ∀ m ∈ written source mode, IsPlainMethod m) :
    Members mode (below (separate ((publicOnly source.constants).map constant)
      (methodLines source mode))) := by
  refine parts_separate (fun filled => ?_) fun filled gap among =>
    members_methods plain filled among
  refine parts_lines ?_ nil_mem_breaks filled
  intro l member
  obtain ⟨c, there, rfl⟩ := List.mem_map.1 member
  exact isMember_constant (constants c there) mode

theorem isImplemented_implementsText {interface : Option String}
    (word : ∀ i, interface = some i → IsWord i.toList) :
    IsImplemented (implementsText interface).toList := by
  cases interface with
  | none => exact .inl rfl
  | some i =>
    have text : (implementsText (some i)).toList = implementsWord ++ ([' '] ++ i.toList) := by
      simp [implementsText, implementsWord]
    exact .inr ⟨i.toList, word i rfl, text⟩

def classModifiers (source : EntityToken) : List String :=
  (if source.isAbstract then ["abstract"] else []) ++ (if source.isReadonly then ["final"] else [])

theorem classModifiers_mem (source : EntityToken) :
    ∀ s ∈ classModifiers source, s ∈ modifierWords := by
  unfold classModifiers
  split <;> split
  all_goals decide

section File

variable {source : EntityToken} {kind : EntityKind} {mode : Mode} {name : String}

theorem isStatement_entity (word : IsWord name.toList)
    (interface : ∀ i, implemented? source kind mode separator = some i → IsWord i.toList)
    {inner : List String} (all : Members mode (below inner)) :
    IsStatement ((heading name source mode ++
      implementsText (implemented? source kind mode separator) ++ " \x7b").toList ++
        below (inner ++ ["\x7d"])) := by
  have visible : source.visibility.word ∈ modifierWords := by
    cases source.visibility <;> decide
  cases mode with
  | interface =>
    have text : (heading name source .interface ++
        implementsText (implemented? source kind .interface separator) ++ " \x7b").toList ++
          below (inner ++ ["\x7d"]) =
        headed source.visibility.word [] "interface" name.toList ++
          (openBrace ++ (below inner ++ closeBrace)) := by
      simp [below, heading, implemented?, Mode.hasBodies, headed, modified, openBrace, closeBrace,
        implementsText]
    rw [text]
    exact isStatement_interface visible (by simp) word all
  | implementation =>
    have implements := isImplemented_implementsText interface
    generalize implementsText (implemented? source kind .implementation separator) = ending
      at implements
    have text : (heading name source .implementation ++ ending ++ " \x7b").toList ++
          below (inner ++ ["\x7d"]) =
        headed source.visibility.word (classModifiers source) "class" name.toList ++
          (ending.toList ++ (openBrace ++ (below inner ++ closeBrace))) := by
      unfold heading classModifiers
      cases source.isReadonly <;> cases source.isAbstract
      all_goals simp [below, headed, modified, openBrace, closeBrace, Mode.hasBodies]
    rw [text]
    exact isStatement_class visible (classModifiers_mem source) word implements all

def Opens (cs : List Char) : Prop := ∀ gap ∈ gaps, grammar.Parts item gaps (gap ++ cs)

def blockChars : Option String → List Char
  | some line => line.toList ++ ['\n', '\n']
  | none => []

theorem below_block (line : Option String) (cs : List Char) :
    below (block line) ++ '\n' :: cs = '\n' :: (blockChars line ++ cs) := by
  cases line <;> simp [below, block, blockChars]

theorem opens_block {line : Option String} (each : ∀ l, line = some l → IsStatement l.toList)
    {cs : List Char} (others : Opens cs) : Opens (blockChars line ++ cs) := by
  intro gap among
  cases line with
  | none => exact others gap among
  | some l =>
    have text : gap ++ (blockChars (some l) ++ cs) =
        gap ++ (l.toList ++ (['\n', '\n'] ++ cs)) := by simp [blockChars]
    rw [text]
    exact .cons among (each l rfl) (others _ (by simp [gaps]))

theorem read?_of_opens {cs : List Char} (opens : Opens cs) :
    (Grammar.Java.read? (cs ++ ['\n'])).isSome = true := by
  have stops : grammar.Stops 400 item ['\n'] := stops_of_judge (by decide +kernel)
  have all := (opens [] (by simp [gaps])).leaves stops (by decide)
  refine Grammar.read?_isSome "program" all ?_ (by decide)
  simp only [depthLimit, List.nil_append, List.length_append, List.length_singleton]
  omega

/-- What a new file is written from can be read: its name and package, the constants and methods
that it carries, and the names of the interface and the import. -/
structure IsPlainSource (name : String) (space : Option String) (source : EntityToken)
    (kind : EntityKind) (mode : Mode) (options : Options) : Prop where
  named : IsWord name.toList
  spaced : ∀ ns, space = some ns → IsPath ns.toList
  imported : ∀ full, imported? source separator mode space options = some full → IsPath full.toList
  interface : ∀ i, implemented? source kind mode separator = some i → IsWord i.toList
  constants : ∀ c ∈ publicOnly source.constants, IsPlainConstant c
  methods : ∀ m ∈ written source mode, IsPlainMethod m

variable {target : String} {options : Options} {space : Option String}

def fileChars (name : String) (space : Option String) (source : EntityToken) (kind : EntityKind)
    (mode : Mode) (options : Options) : List Char :=
  blockChars (space.map (fun ns => "package " ++ ns ++ ";")) ++
    (blockChars ((imported? source separator mode space options).map
      (fun full => "import " ++ full ++ ";")) ++
    ((heading name source mode ++
      implementsText (implemented? source kind mode separator) ++ " \x7b").toList ++
        below (separate ((publicOnly source.constants).map constant) (methodLines source mode) ++
          ["\x7d"])))

theorem opens_fileChars (plain : IsPlainSource name space source kind mode options) :
    Opens (fileChars name space source kind mode options) := by
  have all := members_source plain.constants plain.methods
  refine opens_block ?package (opens_block ?imported ?entity)
  case package =>
    intro l made
    obtain ⟨ns, there, rfl⟩ := Option.map_eq_some_iff.1 made
    simpa using isStatement_package (plain.spaced ns there)
  case imported =>
    intro l made
    obtain ⟨full, there, rfl⟩ := Option.map_eq_some_iff.1 made
    simpa using isStatement_import (plain.imported full there)
  case entity =>
    intro gap among
    simpa using Grammar.Parts.cons among (isStatement_entity plain.named plain.interface all) .nil

theorem toList_render_generate
    (asked : Name.splitTarget target separator options.space = (name, space)) :
    (render (Language.java.generate target source kind mode options)).toList =
      fileChars name space source kind mode options ++ ['\n'] := by
  have lines : Language.java.lines target source kind mode options =
      block (space.map (fun ns => "package " ++ ns ++ ";")) ++
        (block ((imported? source separator mode space options).map
          (fun full => "import " ++ full ++ ";")) ++
        ((heading name source mode ++
          implementsText (implemented? source kind mode separator) ++ " \x7b") ::
            (separate ((publicOnly source.constants).map constant) (methodLines source mode) ++
              ["\x7d"]))) := by
    unfold Language.lines Language.generate generate
    rw [map_text_number, asked]
    unfold imported?
    dsimp only
    generalize (if mode.hasBodies then sourceImport? source separator space options else none) =
      imported
    generalize implemented? source kind mode separator = interface
    cases space <;> cases imported <;> cases interface
    all_goals simp [block, implementsText]
  have joined := toList_join (Language.java.lines target source kind mode options)
  rw [← Language.render_generate, lines, below, List.flatMap_append, List.flatMap_append, ← below,
    ← below, List.flatMap_cons, ← below, List.cons_append, below_block, below_block] at joined
  exact (List.cons.inj joined).2

theorem read?_generate (asked : Name.splitTarget target separator options.space = (name, space))
    (plain : IsPlainSource name space source kind mode options) :
    (Grammar.Java.read?
      (render (Language.java.generate target source kind mode options)).toList).isSome = true := by
  rw [toList_render_generate asked]
  exact read?_of_opens (opens_fileChars plain)

end File

end CodeOutline.Scaffold.Java
