import CodeOutline.Proofs.Name.Splitting
import CodeOutline.Proofs.Php.Declarations
import CodeOutline.Proofs.Session.History
import CodeOutline.Proofs.Session.Replies
import CodeOutline.Proofs.Text.Pieces

/-!
The import of the source entity in a new PHP class. A shown name that carries the namespace of
its entity is imported by that; one that carries none is imported from the first namespace of
the document, wherever the entity is declared.
-/

set_option autoImplicit false

namespace CodeOutline

namespace Scaffold

/-- The lines that import a name. -/
def useLines (lines : List String) : List String := lines.filter (Text.startsWith · "use ")

theorem startsWith_use_of_head {s : String} (other : s.toList.head? ≠ some 'u') :
    Text.startsWith s "use " = false := by
  have letters : "use ".toList = ['u', 's', 'e', ' '] := by decide
  rw [Text.startsWith, letters]
  cases chars : s.toList with
  | nil => rfl
  | cons c cs =>
    rw [chars] at other
    have apart : 'u' ≠ c := fun same => other (by rw [same]; rfl)
    rw [Text.dropStart?, if_neg apart]
    rfl

theorem startsWith_use (full : String) : Text.startsWith ("use " ++ full) "use " = true := by
  rw [Text.startsWith, String.toList_append, Syntax.Scan.dropStart?_append]
  rfl

theorem useLines_append (above below : List String) :
    useLines (above ++ below) = useLines above ++ useLines below := List.filter_append ..

theorem useLines_eq_nil {lines : List String} (other : ∀ l ∈ lines, l.toList.head? ≠ some 'u') :
    useLines lines = [] :=
  List.filter_eq_nil_iff.2 (fun l member => by simp [startsWith_use_of_head (other l member)])

namespace Php

variable {target : String} {source : EntityToken} {kind : EntityKind} {mode : Mode}
  {options : Options}

private theorem head_pad (s : String) : (pad ++ s).toList.head? ≠ some 'u' := by
  have blank : pad.toList = [' ', ' ', ' ', ' '] := by decide
  simp [blank]

private theorem useLines_heading (name ending : String) :
    useLines [heading name source .implementation ++ ending, "\x7b"] = [] := by
  apply useLines_eq_nil
  intro l member
  rcases List.mem_cons.1 member with rfl | brace
  · unfold heading
    simp only
    split
    · simp
    · split <;> simp
  · obtain rfl := List.mem_singleton.1 brace
    decide

private theorem useLines_constants :
    useLines ((publicOnly source.constants).map constant) = [] := by
  apply useLines_eq_nil
  intro l member
  obtain ⟨c, -, rfl⟩ := List.mem_map.1 member
  rw [constant, String.append_assoc, String.append_assoc, String.append_assoc]
  exact head_pad _

private theorem useLines_methods : useLines (methodLines source .implementation) = [] := by
  apply useLines_eq_nil
  intro l member
  simp only [methodLines, Mode.hasBodies, if_true, blocks, spaced] at member
  rcases Text.mem_intercalate member with blank | ⟨block, there, inside⟩
  · obtain rfl := List.mem_singleton.1 blank
    decide
  · obtain ⟨opening, -, rfl⟩ := List.mem_map.1 there
    rcases List.mem_append.1 inside with first | last
    · obtain ⟨line, -, rfl⟩ := List.mem_map.1 first
      exact head_pad line
    · rcases List.mem_cons.1 last with rfl | brace
      · rw [String.append_assoc]
        exact head_pad _
      · obtain rfl := List.mem_singleton.1 brace
        exact head_pad _

theorem useLines_separate {above below : List String} (first : useLines above = [])
    (second : useLines below = []) : useLines (separate above below) = [] := by
  have gap : useLines [""] = [] := by decide
  unfold separate
  split
  · rw [useLines_append, first, second, List.append_nil]
  · rw [useLines_append, useLines_append, first, gap, second, List.append_nil, List.append_nil]

theorem useLines_generate (target : String) (source : EntityToken) (kind : EntityKind)
    (options : Options) :
    useLines ((generate target source kind .implementation options).map (·.text)) =
      (sourceImport? source separator (Name.splitTarget target separator options.space).2
        options).toList.map (fun full => "use " ++ full ++ ";") := by
  have opening : useLines ["<?php"] = [] := by decide
  have strict : useLines (if options.strict then ["declare(strict_types=1);"] else []) = [] := by
    split <;> decide
  have gap : useLines [""] = [] := by decide
  have closing : useLines ["\x7d"] = [] := by decide
  simp only [generate, map_text_number, useLines_append, opening, strict, gap, closing,
    useLines_heading, useLines_separate useLines_constants useLines_methods, Mode.hasBodies,
    if_true, List.nil_append, List.append_nil]
  have space (ns : String) : useLines ["namespace " ++ ns ++ ";", ""] = [] :=
    useLines_eq_nil (by simp)
  have imported (full : String) : useLines ["use " ++ full ++ ";", ""] = ["use " ++ full ++ ";"] := by
    have fits : Text.startsWith ("use " ++ full ++ ";") "use " = true := by
      rw [String.append_assoc]
      exact startsWith_use _
    have blank : Text.startsWith "" "use " = false := by decide
    simp [useLines, fits, blank]
  cases named : (Name.splitTarget target separator options.space).2 with
  | none =>
    cases sourceImport? source separator none options with
    | none => rfl
    | some full => exact imported full
  | some ns =>
    simp only [Option.map_some, space, List.nil_append]
    cases sourceImport? source separator (some ns) options with
    | none => rfl
    | some full => exact imported full

end Php

end Scaffold

namespace Analysis.Php

open Scaffold (useLines sourceImport?)
open Grammar.Php (isNameChar_apart)

namespace Declaration

variable {d : Declaration} {position : NamespacePosition}

/-- The lines that import the entity as the source names it: one when it is in a namespace. -/
def trueImports (d : Declaration) : List String :=
  d.space.toList.map (fun _ => "use " ++ d.fullName ++ ";")

/-- No blanks at either end of the name or of the namespace. -/
def IsTrim (d : Declaration) : Prop :=
  Text.trim d.name = d.name ∧ ∀ ns, d.space = some ns → Text.trim ns = ns

/-- The shown name tells the namespace of the entity, if it has one. -/
def Tells (position : NamespacePosition) (d : Declaration) : Prop :=
  position ≠ .none ∧ d.space ≠ none

private theorem plain_name (proper : (Mark.entity d).IsProper) :
    '\\' ∉ d.name.toList ∧ ':' ∉ d.name.toList :=
  ⟨fun member => (isNameChar_apart (proper.1.all _ member)).1 rfl,
    fun member => (isNameChar_apart (proper.1.all _ member)).2 rfl⟩

private theorem plain_space (proper : (Mark.entity d).IsProper) {ns : String}
    (space : d.space = some ns) : ':' ∉ ns.toList ∧ ns ≠ "" := by
  have path := proper.2 ns space
  constructor
  · intro member
    rcases path.all _ member with fits | slash
    · exact (isNameChar_apart fits).2 rfl
    · cases slash
  · rintro rfl
    obtain ⟨c, rest, whole, -⟩ := path.start
    cases whole

theorem split_shown (proper : (Mark.entity d).IsProper)
    (trimmed : position = .suffix → d.IsTrim) :
    Name.split (d.shown position) separator =
      (d.name, if position = .none then none else d.space) := by
  obtain ⟨slash, colon⟩ := plain_name proper
  have one : separator.toList = ['\\'] := by decide
  refine Name.split_qualify one slash (by decide) colon ?spaces trimmed
  case spaces =>
    intro ns member
    obtain ⟨path, filled⟩ := plain_space proper member
    exact ⟨filled, .of_not_mem path⟩

/-- What an entity of that shown name is imported from: the namespace that the name tells, or
else the first one of the document. -/
theorem sourceImport?_shown (proper : (Mark.entity d).IsProper)
    (trimmed : position = .suffix → d.IsTrim) {e : EntityToken} (named : e.name = d.shown position)
    (space : Option String) (options : Scaffold.Options) :
    sourceImport? e separator space options =
      (((if position = .none then none else d.space).orElse (fun _ => options.sourceSpace)).filter
        (fun ns => some ns ≠ space)).map (fun ns => ns ++ separator ++ d.name) := by
  have parts : Name.split e.name separator = _ := named ▸ split_shown proper trimmed
  simp only [sourceImport?, parts]
  cases (if position = .none then none else d.space).orElse (fun _ => options.sourceSpace) with
  | none => rfl
  | some ns =>
    by_cases same : some ns = space
    · simp [Option.filter, same]
    · simp [Option.filter, same]

end Declaration

theorem separator_eq : Scaffold.Php.separator = separator := rfl

private theorem lines_php (s : Session) {c : Choices} {kind : EntityKind} {e : EntityToken}
    (php : c.language = .php) (source : c.source = (kind, e)) :
    ∃ options : Scaffold.Options, options.space = none ∧ options.sourceSpace = s.tree.space ∧
      c.lines s .implementation =
        (Scaffold.Php.generate c.target e kind .implementation options).map (·.text) := by
  rw [Choices.lines, php, source, Scaffold.Language.lines, Scaffold.Language.generate]
  refine ⟨_, ?space, ?fallback, rfl⟩
  case space => rfl
  case fallback => rfl

private def importLine (name ns : String) : String := "use " ++ (ns ++ separator ++ name) ++ ";"

private theorem importLine_injective (name : String) : Function.Injective (importLine name) := by
  intro ns ns' same
  simpa [importLine, ← String.toList_inj] using same

private theorem trueImports_eq (d : Declaration) :
    d.trueImports = d.space.toList.map (importLine d.name) := by
  unfold Declaration.trueImports Declaration.fullName
  cases d.space <;> rfl

private theorem toList_inj {α : Type} {o o' : Option α} : o.toList = o'.toList ↔ o = o' := by
  cases o <;> cases o' <;> simp

private theorem told_eq_iff {own first space : Option String} (other : space ≠ own ∨ own = none)
    (bare : Prop) [Decidable bare] :
    ((if bare then none else own).orElse (fun _ => first)).filter (fun ns => some ns ≠ space) = own ↔
      (¬ bare ∧ own ≠ none) ∨ first = own ∨ own = none ∧ first = space := by
  cases own with
  | none => cases first <;> by_cases bare <;> simp_all [Option.filter]
  | some ns =>
    have apart : some ns ≠ space := (other.resolve_right (Option.some_ne_none ns)).symm
    cases first <;> by_cases bare <;> simp_all [Option.filter]

/-- The imports of a class that implements an entity of a document, in another namespace than
that of the entity: they are right just when the shown name tells the namespace, or the first
namespace of the document is that of the entity, or else the entity is in none and the new class
in that first one. -/
theorem imports_right_iff (s : Session) {doc : Document}
    (made : Analyzer.php.analyze doc s.config = .ok s.tree) {kind : EntityKind} {index : Nat}
    {e : EntityToken} (place : (s.tree.entitiesOf kind)[index]? = some e) :
    let position := (s.config.language doc.language).position
    ∃ d, (firsts (·.shown position) (declarations doc.text kind))[index]? = some d ∧
      e.name = d.shown position ∧
      ∀ c : Choices, c.language = .php → c.source = (kind, e) →
        (position = .suffix → d.IsTrim) →
        (Name.splitTarget c.target separator none).2 ≠ d.space ∨ d.space = none →
        (useLines (c.lines s .implementation) = d.trueImports ↔
          d.Tells position ∨ firstSpace? doc.text = d.space ∨
          d.space = none ∧ firstSpace? doc.text = (Name.splitTarget c.target separator none).2) := by
  intro position
  obtain ⟨first, names⟩ := analyze_lists made
  have shown : (firsts (·.shown position) (declarations doc.text kind))[index]?.map
      (·.shown position) = some e.name := by
    rw [← List.getElem?_map, ← names kind, List.getElem?_map, place]
    rfl
  obtain ⟨d, listed, named⟩ := Option.map_eq_some_iff.1 shown
  refine ⟨d, listed, named.symm, fun c php source trimmed other => ?_⟩
  have proper : (Mark.entity d).IsProper := declaration_proper
    (mem_of_mem_firsts (List.mem_of_getElem? listed))
  obtain ⟨options, own, fallback, lines⟩ := lines_php s php source
  rw [lines, Scaffold.Php.useLines_generate, own, separator_eq,
    d.sourceImport?_shown proper trimmed named.symm, fallback, trueImports_eq]
  have asked : ∀ o : Option String,
      (o.map (fun ns => ns ++ separator ++ d.name)).toList.map (fun full => "use " ++ full ++ ";") =
        o.toList.map (importLine d.name) := by
    rintro (_ | ns) <;> rfl
  rw [asked, (importLine_injective d.name).list_map.eq_iff, toList_inj, first]
  exact told_eq_iff other _

/-- Every class that implements an entity of the document imports it as the source names it, or
not at all when it is in no namespace. -/
def ImportsTruly (s : Session) (doc : Document) : Prop :=
  let position := (s.config.language doc.language).position
  ∀ (kind : EntityKind) (index : Nat) (e : EntityToken) (d : Declaration),
    (s.tree.entitiesOf kind)[index]? = some e →
    (firsts (·.shown position) (declarations doc.text kind))[index]? = some d →
    ∀ c : Choices, c.language = .php → c.source = (kind, e) →
      (Name.splitTarget c.target separator none).2 ≠ d.space →
      useLines (c.lines s .implementation) = d.trueImports

def globalDocument : Document where
  language := "php"
  file := "a.php"
  text := "<?php namespace App \x7b class A \x7b\x7d \x7d namespace \x7b class B \x7b\x7d \x7d"

def globalSession : Session := (Session.start {} (some "/w")).run [.focus globalDocument]

def spacesDocument : Document where
  language := "php"
  file := "a.php"
  text := "<?php namespace App; class A \x7b\x7d namespace Lib; class C \x7b\x7d"

def spacesSession : Session := (Session.start {} (some "/w")).run [.focus spacesDocument]

/-- A session that shows names without their namespaces. -/
def bareSession : Session :=
  (Session.start { languages := [("php", { position := .none })] } (some "/w")).run
    [.focus spacesDocument]

/-- The class `D` in the namespace `Other`, from an entity of the document. -/
def otherChoices (doc : Document) (source : EntityKind × EntityToken) : Choices where
  workspace := "/w"
  document := doc
  language := .php
  source := source
  target := "D : Other"
  directory := ""
  extension := none

private theorem otherChoices_space (doc : Document) (source : EntityKind × EntityToken) :
    (Name.splitTarget (otherChoices doc source).target separator none).2 = some "Other" := by
  have asked : (Name.splitTarget "D : Other" separator none).2 = some "Other" := by decide +kernel
  exact asked

private theorem not_importsTruly_of_lines {s : Session} {doc : Document} (space : Option String)
    (written right : List String)
    (writes : (s.tree.entitiesOf .class)[1]?.map (fun e =>
      useLines ((otherChoices doc (.class, e)).lines s .implementation)) = some written)
    (declares : (firsts (·.shown (s.config.language doc.language).position)
      (declarations doc.text .class))[1]?.map (fun d => (d.space, d.trueImports)) =
        some (space, right))
    (elsewhere : space ≠ some "Other") (wrong : written ≠ right) : ¬ ImportsTruly s doc := by
  intro truly
  obtain ⟨e, place, rfl⟩ := Option.map_eq_some_iff.1 writes
  obtain ⟨d, listed, both⟩ := Option.map_eq_some_iff.1 declares
  obtain ⟨rfl, rfl⟩ := Prod.mk.inj both
  refine wrong (truly .class 1 e d place listed (otherChoices doc (.class, e)) rfl rfl ?_)
  rw [otherChoices_space]
  exact elsewhere.symm

/-- An entity outside all namespaces is imported from the first one of the document. Without
namespaces in the shown names, so is one of another namespace. -/
theorem not_importsTruly :
    ¬ ImportsTruly globalSession globalDocument ∧ ¬ ImportsTruly bareSession spacesDocument := by
  constructor
  · exact not_importsTruly_of_lines none ["use App\\B;"] []
      (by decide +kernel) (by decide +kernel) (by decide) (by decide)
  · exact not_importsTruly_of_lines (some "Lib") ["use App\\C;"] ["use Lib\\C;"]
      (by decide +kernel) (by decide +kernel) (by decide) (by decide)

private theorem spacesSession_made :
    Analyzer.php.analyze spacesDocument spacesSession.config = .ok spacesSession.tree := by
  have config : spacesSession.config = {} := Session.run_config {} (some "/w") _
  have fits : (Analyzer.php.analyze spacesDocument {}).toOption.isSome = true := by decide +kernel
  cases analyzed : Analyzer.php.analyze spacesDocument {} with
  | error failure => simp [analyzed, Except.toOption] at fits
  | ok t =>
    have tree : spacesSession.tree = t :=
      Session.tree_of_focus (some "/w") rfl (by decide +kernel) analyzed
    rw [config, tree, analyzed]

/-- An entity of the second namespace whose shown name tells so. -/
theorem imports_right_spacesSession :
    ∃ e, (spacesSession.tree.entitiesOf .class)[1]? = some e ∧
      useLines ((otherChoices spacesDocument (.class, e)).lines spacesSession .implementation) =
        ["use Lib\\C;"] := by
  have two : (spacesSession.tree.entitiesOf .class)[1]?.isSome = true := by decide +kernel
  obtain ⟨e, place⟩ := Option.isSome_iff_exists.1 two
  obtain ⟨d, listed, -, right⟩ := imports_right_iff spacesSession spacesSession_made place
  have declares : (firsts (·.shown (spacesSession.config.language spacesDocument.language).position)
      (declarations spacesDocument.text .class))[1]?.map (fun d => (d.space, d.trueImports)) =
        some (some "Lib", ["use Lib\\C;"]) := by decide +kernel
  rw [listed] at declares
  obtain ⟨space, lines⟩ := Prod.mk.inj (Option.some.inj declares)
  have full : (spacesSession.config.language spacesDocument.language).position = .full := by
    decide +kernel
  refine ⟨e, place, lines ▸ (right (otherChoices spacesDocument (.class, e)) rfl rfl ?_ ?_).2 ?_⟩
  · rw [full]
    exact nofun
  · rw [otherChoices_space, space]
    exact .inl (by decide)
  · rw [full]
    exact .inl ⟨by decide, by rw [space]; exact Option.some_ne_none _⟩

end Analysis.Php

end CodeOutline
