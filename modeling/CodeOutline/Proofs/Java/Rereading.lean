import CodeOutline.Proofs.Java.Names
import CodeOutline.Proofs.Java.Writing
import CodeOutline.Proofs.Php.Rereading
import CodeOutline.Proofs.Token.Placed

/-!
Reading what was written, in Java and in both languages that have full generators. The names and
packages of a new Java file are words and paths, because those of the document were, and so the
file is read when its members are.
-/

set_option autoImplicit false

namespace CodeOutline

namespace Grammar.Java

variable {c : Char} {w cs : List Char}

def blankCodes : List Nat :=
  [9, 10, 11, 12, 13, 0x20, 0x85, 0xA0, 0x1680, 0x2000, 0x2001, 0x2002, 0x2003, 0x2004, 0x2005,
    0x2006, 0x2007, 0x2008, 0x2009, 0x200A, 0x2028, 0x2029, 0x202F, 0x205F, 0x3000]

theorem isBlank_of_isNameChar (fits : isNameChar c = true) : Text.isBlank c = false := by
  have codes : ∀ n ∈ blankCodes, isNameChar (Char.ofNat n) = false := by decide +kernel
  cases blank : Text.isBlank c with
  | false => rfl
  | true =>
    have among : c.toNat ∈ blankCodes := by
      simp only [Text.isBlank, Bool.or_eq_true, Bool.and_eq_true, decide_eq_true_eq,
        beq_iff_eq] at blank
      simp only [blankCodes, List.mem_cons, List.not_mem_nil, or_false]
      omega
    have other := codes c.toNat among
    rw [Char.ofNat_toNat, fits] at other
    cases other

theorem IsWord.isSimple (word : IsWord w) : Name.IsSimple "." (String.ofList w) := by
  have outside {s : Char} (other : isNameChar s = false) : s ∉ w := fun member => by
    rw [word.all s member] at other
    cases other
  have chars : (String.ofList w).toList = w := String.toList_ofList
  constructor
  case trimmed =>
    have solid := Text.trimChars_of_solid fun c member => isBlank_of_isNameChar (word.all c member)
    rw [Text.trim, chars, solid]
  case outside =>
    intro c member
    obtain rfl : c = '.' := by simpa using member
    rw [chars]
    exact outside (by decide)
  case noColon =>
    rw [chars]
    exact outside (by decide)

namespace IsPath

variable (path : IsPath cs)

include path

theorem last : ∀ c ∈ cs.getLast?, isNameChar c = true := by
  obtain ⟨w, ws, word, words, rfl⟩ := path
  intro c last
  cases ws using List.reverseRecOn with
  | nil =>
    refine word.all c (List.mem_of_getLast? ?_)
    simpa [dotted] using last
  | append_singleton ws v =>
    have word := (words v (by simp)).2.2
    obtain ⟨d, ds, spelled, -⟩ := word.starts
    refine word.all c (List.mem_of_getLast? ?_)
    have filled : v.2.2 ≠ [] := by simp [spelled]
    have text : w ++ dotted (ws ++ [v]) = w ++ (dotted ws ++ (v.1 ++ '.' :: v.2.1)) ++ v.2.2 := by
      simp [dotted]
    rwa [text, List.getLast?_append_of_ne_nil _ filled] at last

theorem isSpace (paired : Name.PairsColons cs) : Name.IsSpace (String.ofList cs) := by
  have last := path.last
  have chars : (String.ofList cs).toList = cs := String.toList_ofList
  obtain ⟨c, ds, rfl, start⟩ := path.starts
  constructor
  case filled =>
    intro empty
    rw [empty] at chars
    cases chars
  case trimmed =>
    have first : ∀ d ∈ (c :: ds).head?, Text.isBlank d = false := by
      rintro d ⟨⟩
      exact isBlank_of_isNameChar (isNameChar_of_isNameStart start)
    rw [Text.trim, chars, Text.trimChars_of_ends first fun d member =>
      isBlank_of_isNameChar (last d member)]
  case paired => rwa [chars]

end IsPath

end Grammar.Java

namespace Analysis.Java

open Grammar.Java (IsWord IsPath reserved)
open Scaffold (publicOnly implemented? imported? sourceImport?)
open Scaffold.Java (IsPlainConstant IsPlainMethod written)
open Syntax (Node)

variable {doc : Document} {c : Config} {t : TokenTree} {e : EntityToken} {n : Node}

/-! The names in the outline -/

theorem addField_name (ofInterface : Bool) (e : EntityToken) (n : Node) :
    (addField ofInterface e n).name = e.name := by
  refine foldl_keeps EntityToken.name (fun e declarator => ?_) e _
  split
  · rfl
  · dsimp only
    split <;> rfl

theorem addMember_name (ofInterface : Bool) (e : EntityToken) (n : Node) :
    (addMember ofInterface e n).name = e.name := by
  unfold addMember
  split
  · exact addField_name ofInterface e n
  · exact addField_name ofInterface e n
  · split <;> rfl
  · split <;> rfl
  · rfl

def IsShown (space : Option String) (position : NamespacePosition) (name : String) : Prop :=
  ∃ w, IsWord w ∧ name = Name.qualify (String.ofList w) space separator position

def ShowsAll (space : Option String) (position : NamespacePosition) (t : TokenTree) : Prop :=
  ∀ kind, ∀ e ∈ t.entitiesOf kind, IsShown space position e.name

variable {space : Option String} {position : NamespacePosition}

theorem isShown_of_entity? {ofInterface : Bool} (sound : n.Sound Grammar.Java.Demand)
    (shaped : Grammar.Java.nameShape n.kind = some Grammar.Java.nameScan)
    (shown : entity? space position ofInterface n = some e) : IsShown space position e.name := by
  obtain ⟨name, found, rfl⟩ := Option.map_eq_some_iff.1 shown
  have role : name.field = some "name" := by
    have first := List.find?_some found
    exact beq_iff_eq.1 first
  have made := sound.demanded.1 _ shaped name (Node.mem_children_of_child? found) role
  refine ⟨name.chars, Grammar.Java.isWord_of_makes made, ?_⟩
  exact foldl_keeps EntityToken.name (addMember_name ofInterface) _ _

theorem addEntity_cases (sound : n.Sound Grammar.Java.Demand) (position : NamespacePosition)
    (space : Option String) (t : TokenTree) : addEntity position space t n = t ∨
      ∃ kind e, IsShown space position e.name ∧
        addEntity position space t n = t.addEntity kind e := by
  unfold addEntity
  dsimp only
  split
  case h_5 => exact .inl rfl
  all_goals
    next same =>
    have shaped : Grammar.Java.nameShape n.kind = some Grammar.Java.nameScan := by
      rw [same]
      rfl
    split
    · next e shown => exact .inr ⟨_, e, isShown_of_entity? sound shaped shown, rfl⟩
    · exact .inl rfl

theorem addEntity_shown (sound : n.Sound Grammar.Java.Demand)
    (all : ShowsAll space position t) : (addEntity position space t n).space = t.space ∧
      ShowsAll space position (addEntity position space t n) := by
  rcases addEntity_cases sound position space t with same | ⟨kind, e, shown, same⟩
  · rw [same]
    exact ⟨rfl, all⟩
  · rw [same]
    refine ⟨by cases kind <;> rfl, fun k => ?_⟩
    rw [TokenTree.entitiesOf_addEntity]
    split
    · exact forall_insertNew (all k) shown
    · exact all k

theorem foldl_addEntity_shown {ns : List Node} (sound : ∀ n ∈ ns, n.Sound Grammar.Java.Demand)
    (all : ShowsAll space position t) :
    (ns.foldl (addEntity position space) t).space = t.space ∧
      ShowsAll space position (ns.foldl (addEntity position space) t) := by
  induction ns generalizing t with
  | nil => exact ⟨rfl, all⟩
  | cons n ns ih =>
    rw [List.forall_mem_cons] at sound
    obtain ⟨same, one⟩ := addEntity_shown sound.1 all
    obtain ⟨same', others⟩ := ih sound.2 one
    exact ⟨same'.trans same, others⟩

theorem isPath_of_package? {root : Node} {ns : String}
    (sound : ∀ n ∈ root.children, n.Sound Grammar.Java.Demand)
    (found : package? root = some ns) : IsPath ns.toList := by
  obtain ⟨n, there, named⟩ := List.exists_of_findSome?_eq_some found
  obtain ⟨path, first, rfl⟩ := Option.map_eq_some_iff.1 named
  obtain ⟨child, kind⟩ := List.mem_filter.1 there
  have demanded := (sound n child).demanded.2 (beq_iff_eq.1 kind) path
    (Node.mem_children_of_mem_named (List.mem_of_find?_eq_some first)) (List.find?_some first)
  rwa [Node.text, String.toList_ofList]

theorem tree?_start {text : String} {settings : LanguageSettings}
    (read : tree? text settings = some t) :
    ∃ (root : Node) (start : TokenTree), Grammar.Java.read? text.toList = some root ∧
      (∀ kind, start.entitiesOf kind = []) ∧ (∀ ns ∈ start.space, package? root = some ns) ∧
      t = root.named.foldl (addEntity settings.position start.space) start := by
  obtain ⟨root, found, made⟩ := Option.map_eq_some_iff.1 read
  obtain ⟨first, bare, told, same⟩ : ∃ first : TokenTree, (∀ kind, first.entitiesOf kind = []) ∧
      (∀ ns ∈ first.space, package? root = some ns) ∧ t = root.named.foldl
        (addEntity settings.position first.space) (((declarationsOf "import_declaration"
          root).filterMap importOf?).foldl TokenTree.addImport first) := by
    cases declared : package? root with
    | none =>
      rw [declared] at made
      exact ⟨.empty, fun kind => by cases kind <;> rfl, nofun, made.symm⟩
    | some ns =>
      rw [declared] at made
      refine ⟨TokenTree.empty.setSpace ns, ?_, ?_, made.symm⟩
      · intro kind
        unfold TokenTree.setSpace
        split <;> cases kind <;> rfl
      · unfold TokenTree.setSpace
        split
        · exact nofun
        · rintro _ ⟨⟩
          rfl
  have step (t : TokenTree) (i : ImportToken) : SameHead t (t.addImport i) :=
    ⟨rfl, fun kind => by cases kind <;> rfl⟩
  have head := SameHead.foldl step first
    ((declarationsOf "import_declaration" root).filterMap importOf?)
  refine ⟨root, _, found, fun kind => (head.entities kind).trans (bare kind), ?_, ?_⟩
  · exact head.space ▸ told
  · rw [head.space]
    exact same

theorem tree?_shown {text : String} {settings : LanguageSettings}
    (read : tree? text settings = some t) :
    (∀ ns, t.space = some ns → IsPath ns.toList) ∧ ShowsAll t.space settings.position t := by
  obtain ⟨root, start, found, bare, told, rfl⟩ := tree?_start read
  have sound := Grammar.Java.sound_of_read? found
  have none : ShowsAll start.space settings.position start := by simp [ShowsAll, bare]
  obtain ⟨same, all⟩ := foldl_addEntity_shown
    (fun n member => sound n (Node.mem_children_of_mem_named member)) none
  rw [same]
  exact ⟨fun ns there => isPath_of_package? sound (told ns there), all⟩

theorem analyze_shown (analyzed : Analyzer.java.analyze doc c = .ok t) :
    (∀ ns, t.space = some ns → IsPath ns.toList) ∧
      ShowsAll t.space (c.language doc.language).position t := by
  obtain ⟨t', reading, changed⟩ := Analyzer.read_of_analyze analyzed
  have shown := tree?_shown (Analyzer.eq_some_of_orSyntaxError reading)
  rcases changed with rfl | ⟨f, rfl⟩
  · exact shown
  · refine ⟨shown.1, fun kind e listed => ?_⟩
    have named := List.mem_map_of_mem (f := EntityToken.name) listed
    rw [t'.names_mapSpan f kind] at named
    obtain ⟨e', there, same⟩ := List.mem_map.1 named
    exact same ▸ shown.2 kind e' there

/-! What can be read again -/

theorem analyze_isOk (read : (Grammar.Java.read? doc.text.toList).isSome = true) :
    ∃ t, Analyzer.java.analyze doc c = .ok t := by
  have tree : (tree? doc.text (c.language doc.language)).isSome = true := by
    rwa [tree?, Option.isSome_map]
  exact Analyzer.exists_analyze rfl tree

theorem isWord_of_isIdentifier {s : String} (identifier : Name.IsIdentifier s)
    (free : s ∉ reserved) : IsWord s.toList := by
  have all := identifier.all
  obtain ⟨d, ds, whole, first, -⟩ := identifier
  constructor
  case starts =>
    refine ⟨d, ds, whole, ?_⟩
    rw [Grammar.Java.isNameStart, Text.isLetter]
    rcases first with letter | rfl
    · simp [letter]
    · decide
  case all =>
    intro c member
    rw [Grammar.Java.isNameChar, Grammar.Java.isNameStart, Text.isLetter]
    rcases all c member with fits | rfl
    · rw [Char.isAlphanum, Bool.or_eq_true] at fits
      rcases fits with letter | digit
      · simp [letter]
      · simp [digit]
    · decide
  case free => rwa [String.ofList_toList]

/-- No reserved word is asked for, neither as the name nor as the package. -/
def IsFree (target : String) : Prop :=
  (Name.splitTarget target separator none).1 ∉ reserved ∧
    ∀ ns ∈ (Name.splitTarget target separator none).2, ns ∉ reserved

instance (target : String) : Decidable (IsFree target) := inferInstanceAs (Decidable (_ ∧ _))

theorem separator_eq : Scaffold.Java.separator = separator := rfl

/-- A new file can be read when the constants and methods that it carries can. A comment with a
colon between the words of the package would be taken for the colon in front of a namespace. -/
theorem analyze_generate (analyzed : Analyzer.java.analyze doc c = .ok t) {kind : EntityKind}
    (listed : e ∈ t.entitiesOf kind) {mode : Scaffold.Mode}
    (constants : ∀ v ∈ publicOnly e.constants, IsPlainConstant v)
    (methods : ∀ m ∈ written e mode, IsPlainMethod m)
    (paired : ∀ ns ∈ t.space, Name.PairsColons ns.toList)
    {target : String} (asked : Name.IsTarget separator target) (free : IsFree target)
    {options : Scaffold.Options} (space : options.space = none)
    (fallback : options.sourceSpace = t.space) :
    ∃ t', Analyzer.java.analyze { doc with
      text := Scaffold.render (Scaffold.Language.java.generate target e kind mode options) } c =
        .ok t' := by
  obtain ⟨spaced, shown⟩ := analyze_shown analyzed
  obtain ⟨w, word, named⟩ := shown kind e listed
  have one : separator.toList = ['.'] := by decide
  have proper : ∀ ns ∈ t.space, Name.IsSpace ns := fun ns told => by
    simpa using (spaced ns told).isSpace (paired ns told)
  have parts : Name.split e.name separator = _ :=
    named ▸ word.isSimple.split_qualify one (by decide) proper _
  obtain ⟨name, own, split, isName, isSpace⟩ :=
    Name.splitTarget_of_isTarget one (.tail _ (.head _)) asked
  rw [IsFree, split] at free
  refine analyze_isOk (Scaffold.Java.read?_generate (space ▸ split) ?_)
  constructor
  case named => exact isWord_of_isIdentifier isName free.1
  case spaced =>
    exact fun ns same => (isWord_of_isIdentifier (isSpace ns same) (free.2 ns same)).isPath
  case imported =>
    intro full shown
    unfold imported? at shown
    split at shown
    · simp only [sourceImport?, separator_eq, parts, fallback] at shown
      split at shown
      · next ns told =>
        have path : IsPath ns.toList := by
          refine spaced ns ?_
          cases there : t.space with
          | none =>
            rw [there, ite_self] at told
            exact told
          | some ns' =>
            rw [there] at told
            split at told <;> exact told
        split at shown
        · cases shown
        · obtain rfl := Option.some.inj shown
          simpa [one] using path.dot Grammar.Java.isGap_nil Grammar.Java.isGap_nil word
      · cases shown
    · cases shown
  case interface =>
    intro i shown
    unfold implemented? at shown
    split at shown
    · obtain rfl := Option.some.inj shown
      rw [Name.simple, separator_eq, parts, String.toList_ofList]
      exact word
    · cases shown
  case constants => exact constants
  case methods => exact methods

/-- A package with a constant, and with a method that has a parameter. -/
def counterDocument : Document where
  language := "java"
  file := "Counter.java"
  text := "package shop; interface Counter \x7b Integer STEP = 1; Integer add(Integer n); \x7d"

def isCounter (e : EntityToken) : Bool :=
  (publicOnly e.constants).all (fun v =>
    v.name == "STEP" && v.type == some "Integer" && v.value == some "1") &&
  (written e .implementation).all (fun m => m.name == "add" && m.type == some "Integer" &&
    m.arguments.all (fun v => v.name == "n" && v.type == some "Integer"))

theorem counter_isOk : ∃ t, Analyzer.java.analyze counterDocument {} = .ok t ∧
    t.space = some "shop" ∧ t.interfaces ≠ [] ∧ ∀ e ∈ t.interfaces, isCounter e = true := by
  have fits : (Analyzer.java.analyze counterDocument {}).toOption.any (fun t =>
      t.space == some "shop" && !t.interfaces.isEmpty && t.interfaces.all isCounter) = true := by
    decide +kernel
  cases analyzed : Analyzer.java.analyze counterDocument {} with
  | error failure => simp [analyzed, Except.toOption] at fits
  | ok t =>
    rw [analyzed] at fits
    refine ⟨t, rfl, ?_⟩
    simpa [Except.toOption, and_assoc] using fits

theorem isValue_one : Scaffold.Java.IsValue ['1'] := by
  refine Syntax.Grammar.isRead_of_judge ?_
  simp only [Syntax.Grammar.blanks, List.forall_mem_cons, List.not_mem_nil, false_imp_iff,
    implies_true, and_true]
  refine ⟨?_, ?_⟩
  all_goals exact fun rest => by cbv

theorem counter_plain {e : EntityToken} (fits : isCounter e = true) :
    (∀ v ∈ publicOnly e.constants, IsPlainConstant v) ∧
      ∀ m ∈ written e .implementation, IsPlainMethod m := by
  have word : ∀ s ∈ ["STEP", "Integer", "add", "n"], IsWord s.toList := by
    have words : ∀ s ∈ ["STEP", "Integer", "add", "n"],
        Grammar.Java.isKeyword s = true ∧ s ∉ reserved := by decide
    exact fun s among => Grammar.Java.isWord_of_isKeyword (words s among).1 (words s among).2
  have type : Grammar.Java.IsType "Integer".toList := (word "Integer" (by simp)).isType (by decide)
  have one : "1".toList = ['1'] := by decide
  simp only [isCounter, Bool.and_eq_true, List.all_eq_true, beq_iff_eq] at fits
  obtain ⟨constants, methods⟩ := fits
  constructor
  · intro v member
    obtain ⟨⟨name, typed⟩, value⟩ := constants v member
    refine ⟨name ▸ word "STEP" (by simp), ?_, ?_⟩
    · rw [typed]
      exact type
    · rw [value, Option.getD_some, one]
      exact isValue_one
  · intro m member
    obtain ⟨⟨name, typed⟩, arguments⟩ := methods m member
    refine ⟨name ▸ word "add" (by simp), fun t shown => ?_, fun v inside => ?_⟩
    · obtain rfl := Option.some.inj (typed.symm.trans shown)
      exact type
    · obtain ⟨bare, own⟩ := arguments v inside
      exact ⟨bare ▸ word "n" (by simp), "Integer", type, .inl own⟩

end Analysis.Java

namespace Analysis

section Both

variable {doc : Document} {c : Config} {t : TokenTree} {kind : EntityKind} {e : EntityToken}
  {mode : Scaffold.Mode} {target : String} {options : Scaffold.Options}

/-- What a new PHP file takes from the entity can be read. -/
structure Php.IsRewritable (doc : Document) (c : Config) (kind : EntityKind) (e : EntityToken)
    (mode : Scaffold.Mode) : Prop where
  constants : ∀ v ∈ Scaffold.publicOnly e.constants, Scaffold.Php.IsPlainConstant v
  methods : ∀ m ∈ Scaffold.methods e mode, Scaffold.Php.IsPlainMethod m
  trimmed : (c.language doc.language).position = .suffix →
    ∀ d ∈ Php.declarations doc.text kind, d.IsTrim

/-- What a new Java file takes from the entity can be read. -/
structure Java.IsRewritable (t : TokenTree) (e : EntityToken) (mode : Scaffold.Mode) : Prop where
  constants : ∀ v ∈ Scaffold.publicOnly e.constants, Scaffold.Java.IsPlainConstant v
  methods : ∀ m ∈ Scaffold.Java.written e mode, Scaffold.Java.IsPlainMethod m
  paired : ∀ ns ∈ t.space, Name.PairsColons ns.toList

/-- A new file is read by the analyzer that made the outline it was written from, in either
language, when what it takes from the entity can be read. -/
theorem generated_is_read (listed : e ∈ t.entitiesOf kind) (space : options.space = none)
    (fallback : options.sourceSpace = t.space) :
    (Analyzer.php.analyze doc c = .ok t → Php.IsRewritable doc c kind e mode →
      Name.IsTarget Php.separator target →
      ∃ t', Analyzer.php.analyze { doc with
        text := Scaffold.render (Scaffold.Language.php.generate target e kind mode options) } c =
          .ok t') ∧
    (Analyzer.java.analyze doc c = .ok t → Java.IsRewritable t e mode →
      Name.IsTarget Java.separator target → Java.IsFree target →
      ∃ t', Analyzer.java.analyze { doc with
        text := Scaffold.render (Scaffold.Language.java.generate target e kind mode options) } c =
          .ok t') := by
  constructor
  · intro analyzed kept asked
    exact Php.analyze_generate analyzed listed kept.constants kept.methods kept.trimmed asked space
      fallback
  · intro analyzed kept asked free
    exact Java.analyze_generate analyzed listed kept.constants kept.methods kept.paired asked free
      space fallback

end Both

theorem generated_is_read_desk :
    (∃ t, Analyzer.php.analyze Php.counterDocument {} = .ok t ∧ ∃ e ∈ t.interfaces,
      ∃ t', Analyzer.php.analyze { Php.counterDocument with
        text := Scaffold.render (Scaffold.Language.php.generate "Shop\\Desk" e .interface
          .implementation { sourceSpace := t.space }) } {} = .ok t') ∧
    ∃ t, Analyzer.java.analyze Java.counterDocument {} = .ok t ∧ ∃ e ∈ t.interfaces,
      ∃ t', Analyzer.java.analyze { Java.counterDocument with
        text := Scaffold.render (Scaffold.Language.java.generate "Desk: store" e .interface
          .implementation { sourceSpace := t.space }) } {} = .ok t' := by
  have desk : Name.IsIdentifier "Desk" := ⟨'D', ['e', 's', 'k'], by decide, by decide, by simp⟩
  constructor
  · obtain ⟨t, made, filled, all⟩ := Php.counter_isOk
    obtain ⟨e, listed⟩ := List.exists_mem_of_ne_nil _ filled
    obtain ⟨constants, methods⟩ := Php.counter_plain (all e listed)
    have asked : Name.IsTarget Php.separator "Shop\\Desk" :=
      ⟨"Desk", desk, .inr ⟨"Shop", ⟨'S', ['h', 'o', 'p'], by decide, by decide, by simp⟩,
        .inl (by decide)⟩⟩
    have there : e ∈ t.entitiesOf .interface := listed
    exact ⟨t, made, e, listed, (generated_is_read there rfl rfl).1 made
      ⟨constants, methods, fun suffix => absurd suffix (by decide)⟩ asked⟩
  · obtain ⟨t, made, told, filled, all⟩ := Java.counter_isOk
    obtain ⟨e, listed⟩ := List.exists_mem_of_ne_nil _ filled
    obtain ⟨constants, methods⟩ := Java.counter_plain (all e listed)
    have paired : ∀ ns ∈ t.space, Name.PairsColons ns.toList := by
      rw [told]
      rintro _ ⟨⟩
      decide
    have asked : Name.IsTarget Java.separator "Desk: store" :=
      ⟨"Desk", desk, .inr ⟨"store", ⟨'s', ['t', 'o', 'r', 'e'], by decide, by decide, by simp⟩,
        .inr ⟨": ", by decide, by decide⟩⟩⟩
    have there : e ∈ t.entitiesOf .interface := listed
    exact ⟨t, made, e, listed, (generated_is_read there rfl rfl).2 made
      ⟨constants, methods, paired⟩ asked (by decide)⟩

end Analysis

end CodeOutline
