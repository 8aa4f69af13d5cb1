import CodeOutline.Proofs.Less.Structure

/-!
Which rule sets of a style sheet with variables are shown. A heading that starts like a class or
an id and has a parenthesis anywhere is taken for the definition of a mixin, so a rule set is lost
when its first selector is a class or an id and any of its selectors is written with a parenthesis.
Every other rule set is shown under its selectors.
-/

set_option autoImplicit false

namespace CodeOutline.Analysis.Less

/-! ## Selectors as they are written -/

def isNameChar (c : Char) : Bool := c.isAlphanum || c == '-' || c == '_' || 0x80 ≤ c.toNat

def isNameText : List Char → Bool
  | [] => true
  | '\\' :: _ :: cs => isNameText cs
  | c :: cs => isNameChar c && isNameText cs

structure SelectorName where
  chars : List Char
  ne_nil : chars ≠ []
  proper : isNameText chars = true

/-- What an attribute is compared with. -/
inductive AttributeValue
  | word (name : SelectorName)
  | quoted (mark : Char) (isMark : mark = '"' ∨ mark = '\'') (text : List Char)

def AttributeValue.written : AttributeValue → List Char
  | .word name => name.chars
  | .quoted mark _ text => mark :: (text ++ [mark])

/-- A comparison of an attribute; one character may stand before the equals sign. -/
structure AttributeTest where
  sign : Option Char
  isSign : ∀ c ∈ sign, c ∈ ['~', '|', '^', '$', '*']
  value : AttributeValue

def AttributeTest.written (t : AttributeTest) : List Char :=
  t.sign.toList ++ '=' :: t.value.written

/-- A simple selector. The arguments of a functional pseudo-class may be any text. -/
inductive Simple
  | universal
  | tag (name : SelectorName)
  | classed (name : SelectorName)
  | identified (name : SelectorName)
  | attributed (name : SelectorName) (test : Option AttributeTest)
  | pseudo (isElement : Bool) (name : SelectorName) (arguments : Option (List Char))

namespace Simple

def written : Simple → List Char
  | .universal => ['*']
  | .tag name => name.chars
  | .classed name => '.' :: name.chars
  | .identified name => '#' :: name.chars
  | .attributed name test => '[' :: (name.chars ++ (test.map (·.written)).getD [] ++ [']'])
  | .pseudo isElement name arguments =>
    (if isElement then [':', ':'] else [':']) ++ name.chars ++
      (arguments.map (fun text => '(' :: (text ++ [')']))).getD []

/-- A class or an id, as the name of a mixin is. -/
def isLikeMixin : Simple → Bool
  | .classed _ | .identified _ => true
  | _ => false

def isRefinement : Simple → Bool
  | .universal | .tag _ => false
  | _ => true

/-- A parenthesis is written in the selector: around the arguments of a functional pseudo-class, in
a quoted value, or behind a backslash. -/
def hasParen : Simple → Bool
  | .universal => false
  | .tag name | .classed name | .identified name => name.chars.contains '('
  | .attributed name test =>
    name.chars.contains '(' || (test.map (·.value.written.contains '(')).getD false
  | .pseudo _ name arguments => arguments.isSome || name.chars.contains '('

end Simple

/-- What stands between two selectors: blanks, or a combinator or a comma with blanks around it. -/
structure SelectorGap where
  before : List Char
  sign : Option Char
  behind : List Char
  blank : ∀ c ∈ before ++ behind, Text.isBlank c = true
  isSign : ∀ c ∈ sign, c ∈ ['>', '+', '~', ',']
  apart : sign = none → before ≠ []

def SelectorGap.written (g : SelectorGap) : List Char := g.before ++ g.sign.toList ++ g.behind

/-- A simple selector right behind another one, or behind a gap. -/
inductive NextSimple
  | refining (s : Simple) (refines : s.isRefinement = true)
  | apart (gap : SelectorGap) (s : Simple)

def NextSimple.simple : NextSimple → Simple
  | .refining s _ => s
  | .apart _ s => s

def NextSimple.written : NextSimple → List Char
  | .refining s _ => s.written
  | .apart gap s => gap.written ++ s.written

/-- Selectors with commas between them, each made of simple selectors and combinators. -/
structure SelectorList where
  first : Simple
  others : List NextSimple

namespace SelectorList

def simples (l : SelectorList) : List Simple := l.first :: l.others.map (·.simple)

def written (l : SelectorList) : List Char := l.first.written ++ l.others.flatMap (·.written)

/-- The list is taken for the name and the parameters of a mixin. -/
def looksLikeMixin (l : SelectorList) : Bool :=
  l.first.isLikeMixin && l.simples.any (·.hasParen)

end SelectorList

/-! Where a parenthesis is written -/

theorem AttributeTest.paren_mem_written (t : AttributeTest) :
    '(' ∈ t.written ↔ '(' ∈ t.value.written := by
  have noSign : '(' ∉ t.sign.toList := by
    intro member
    have known := t.isSign _ (Option.mem_toList.1 member)
    exact absurd known (by decide)
  simp [written, noSign]

theorem Simple.paren_mem_written (s : Simple) : '(' ∈ s.written ↔ s.hasParen = true := by
  cases s with
  | universal => simp [written, hasParen]
  | tag | classed | identified => simp [written, hasParen]
  | attributed name test =>
    cases test with
    | none => simp [written, hasParen]
    | some test => simp [written, hasParen, test.paren_mem_written]
  | pseudo isElement name arguments =>
    have colons : '(' ∉ (if isElement then [':', ':'] else [':']) := by
      cases isElement <;> decide
    cases arguments <;> simp [written, hasParen, colons]

theorem SelectorGap.paren_not_mem (g : SelectorGap) : '(' ∉ g.written := by
  have noBlank : Text.isBlank '(' = false := by decide
  have noSign : '(' ∉ g.sign.toList := by
    intro member
    have known := g.isSign _ (Option.mem_toList.1 member)
    exact absurd known (by decide)
  have plain : '(' ∉ g.before ++ g.behind := by
    intro member
    have blank := g.blank _ member
    rw [noBlank] at blank
    cases blank
  rw [List.mem_append, not_or] at plain
  simp [written, noSign, plain]

theorem NextSimple.paren_mem_written (n : NextSimple) :
    '(' ∈ n.written ↔ n.simple.hasParen = true := by
  cases n with
  | refining s => exact s.paren_mem_written
  | apart gap s =>
    rw [written, List.mem_append, simple, s.paren_mem_written]
    exact or_iff_right gap.paren_not_mem

theorem SelectorList.paren_mem_written (l : SelectorList) :
    '(' ∈ l.written ↔ l.simples.any (·.hasParen) = true := by
  simp [written, simples, Simple.paren_mem_written, NextSimple.paren_mem_written]

/-! What a selector starts with -/

theorem SelectorName.exists_head (name : SelectorName) :
    ∃ c cs, name.chars = c :: cs ∧ c ∉ ['.', '#', '@'] := by
  obtain ⟨chars, ne_nil, proper⟩ := name
  obtain ⟨c, cs, rfl⟩ := List.exists_cons_of_ne_nil ne_nil
  refine ⟨c, cs, rfl, fun member => ?_⟩
  have refused : ∀ d ∈ ['.', '#', '@'], isNameText (d :: cs) = false := by
    simp [isNameText, isNameChar]
  rw [refused c member] at proper
  cases proper

theorem Simple.exists_head (s : Simple) : ∃ c cs, s.written = c :: cs ∧ c ≠ '@' ∧
    (s.isLikeMixin = true ↔ c = '.' ∨ c = '#') := by
  cases s with
  | universal => exact ⟨_, _, rfl, by decide, by decide⟩
  | tag name =>
    obtain ⟨c, cs, same, other⟩ := name.exists_head
    simp only [List.mem_cons, List.not_mem_nil, or_false, not_or] at other
    exact ⟨c, cs, same, other.2.2, by simp [isLikeMixin, other]⟩
  | classed | identified | attributed => exact ⟨_, _, rfl, by decide, by simp [isLikeMixin]⟩
  | pseudo isElement name arguments =>
    cases isElement with
    | false | true => exact ⟨_, _, rfl, by decide, by simp [isLikeMixin]⟩

theorem isPassedOver_written (l : SelectorList) :
    isPassedOver l.written = l.looksLikeMixin := by
  obtain ⟨c, cs, same, notAt, like⟩ := l.first.exists_head
  have parts : l.written = c :: (cs ++ l.others.flatMap (·.written)) := by
    rw [SelectorList.written, same, List.cons_append]
  have rule : isPassedOver l.written = isMixinDefinition l.written := by
    have noRule : ¬ l.written.head? = some '@' := by simpa [parts] using notAt
    rw [isPassedOver, decide_eq_false noRule, Bool.false_or]
  have paren : l.written.contains '(' = l.simples.any (·.hasParen) := by
    rw [Bool.eq_iff_iff, List.contains_iff_mem, l.paren_mem_written]
  rw [rule, SelectorList.looksLikeMixin, ← paren]
  by_cases mixin : l.first.isLikeMixin = true
  · rw [mixin, Bool.true_and, parts]
    rcases like.1 mixin with rfl | rfl <;> rfl
  · have other := mt like.2 mixin
    rw [not_or] at other
    rw [Bool.not_eq_true] at mixin
    rw [mixin, Bool.false_and, parts]
    unfold isMixinDefinition
    split
    · next dot => exact absurd (List.cons.inj dot).1 other.1
    · next hash => exact absurd (List.cons.inj hash).1 other.2
    · rfl

/-! ## Rule sets in the outline -/

/-- What a rule set declares directly inside. -/
def ownDeclarations (inner : List Item) (last : Piece) : List VarToken :=
  inner.filterMap Item.declaration? ++ (declaration? (last.ended .closing)).toList

/-- What the rule sets among the items that are shown under a selector declare. -/
def shownUnder (selector : String) (items : List Item) : List VarToken :=
  (under selector (items.filterMap Item.ruleSet?)).flatten

/-- Every rule set at top level is shown under its selectors with its declarations. -/
def KeepsRuleSets (items : List Item) (t : TokenTree) : Prop :=
  ∀ heading inner last, Item.block heading inner last ∈ items → ∀ l : SelectorList,
    Text.trimChars heading.text = l.written → ∃ front back,
      t.nodes.get? (selectorKey l.written) = some (front ++ ownDeclarations inner last ++ back)

section

variable {before after inner : List Item} {heading last : Piece} {l : SelectorList} {t : TokenTree}

theorem ruleSet?_selectors (selects : Text.trimChars heading.text = l.written) :
    (Item.block heading inner last).ruleSet? =
      if l.looksLikeMixin then none
      else some (selectorKey l.written, ownDeclarations inner last) := by
  rw [Item.ruleSet?, selects, isPassedOver_written]
  rfl

theorem Shows.without (shows : Shows (before ++ .block heading inner last :: after) t)
    (lost : (Item.block heading inner last).ruleSet? = none) : Shows (before ++ after) t := by
  obtain ⟨vars, nodes, others⟩ := shows
  have noVar : (Item.block heading inner last).var? = none := rfl
  refine ⟨?_, ?_, others⟩
  · rw [vars, List.filterMap_append, List.filterMap_append, List.filterMap_cons_none noVar]
  · rw [nodes, List.filterMap_append, List.filterMap_append, List.filterMap_cons_none lost]

theorem Shows.get?_ruleSet {selector : String} {ds : List VarToken}
    (shows : Shows (before ++ .block heading inner last :: after) t)
    (shown : (Item.block heading inner last).ruleSet? = some (selector, ds)) :
    t.nodes.get? selector = some (shownUnder selector before ++ ds ++ shownUnder selector after) := by
  have given : (before ++ .block heading inner last :: after).filterMap Item.ruleSet? =
      before.filterMap Item.ruleSet? ++ (selector, ds) :: after.filterMap Item.ruleSet? := by
    rw [List.filterMap_append, List.filterMap_cons_some shown]
  have gathered : (under selector ((before ++ .block heading inner last :: after).filterMap
      Item.ruleSet?)).flatten = shownUnder selector before ++ ds ++ shownUnder selector after := by
    simp [given, shownUnder, under]
  have used : selector ∈ usedKeys
      ((before ++ .block heading inner last :: after).filterMap Item.ruleSet?) := by
    rw [mem_usedKeys, given]
    simp
  rw [OrderedMap.get?_eq_some_iff, shows.nodes, ← gathered]
  exact List.mem_map_of_mem used

end

/-! A negation lost -/

/-- Two rule sets with a negation: `b, .a:not(.c)` and `.a:not(.c)`. -/
def negations : Document :=
  { language := "less", file := "a.less"
    text := "b, .a:not(.c) \x7b top: 0; \x7d\n.a:not(.c) \x7b left: 0; \x7d" }

def negated : List NextSimple :=
  [.refining (.pseudo false ⟨"not".toList, by decide, by decide⟩ (some ".c".toList)) rfl]

def negatedClass : Simple := .classed ⟨['a'], by decide, by decide⟩

def tagOrNegation : SelectorList where
  first := .tag ⟨['b'], by decide, by decide⟩
  others := .apart ⟨[], some ',', [' '], List.forall_mem_singleton.2 (by decide), by simp,
    by decide⟩ negatedClass :: negated

def negationAlone : SelectorList := ⟨negatedClass, negated⟩

def negationsItems : List Item :=
  [.block ⟨"b, .a:not(.c) ".toList, .origin⟩ [.statement ⟨" top: 0".toList, ⟨15, 0, 15⟩⟩]
      ⟨[' '], ⟨23, 0, 23⟩⟩,
    .block ⟨"\n.a:not(.c) ".toList, ⟨25, 0, 25⟩⟩ [.statement ⟨" left: 0".toList, ⟨38, 1, 12⟩⟩]
      ⟨[' '], ⟨47, 1, 21⟩⟩]

set_option maxRecDepth 4000 in
theorem isForest_negations : IsForest (blankComments negations.text.toList) negationsItems := by
  refine ⟨⟨[], ⟨49, 1, 23⟩⟩, ?_⟩
  rw [← statements_eq_cut]
  rfl

theorem not_keepsRuleSets : ∃ t items, Analyzer.less.read negations {} = .ok t ∧
    IsForest (blankComments negations.text.toList) items ∧ ¬ KeepsRuleSets items t := by
  obtain ⟨t, read, shows⟩ := exists_tree_of_isForest isForest_negations
  have ok : Analyzer.less.read negations {} = .ok t := by
    rw [Analyzer.read, read]
    rfl
  refine ⟨t, negationsItems, ok, isForest_negations, fun keeps => ?_⟩
  obtain ⟨front, back, found⟩ :=
    keeps _ _ _ (List.mem_cons_of_mem _ List.mem_cons_self) negationAlone rfl
  have entries : t.nodes.entries.map (·.1) = ["b, .a:not(.c)"] := by
    rw [shows.nodes]
    rfl
  rw [OrderedMap.get?_eq_some_iff] at found
  have key := List.mem_map_of_mem (f := (·.1)) found
  rw [entries] at key
  have other : selectorKey negationAlone.written ∉ ["b, .a:not(.c)"] := by decide +kernel
  exact other key

end CodeOutline.Analysis.Less

namespace CodeOutline.Analyzer

open Analysis.Less

/-- A rule set of a style sheet with variables is shown under its selectors, between what the rule
sets before it and behind it declare for them, unless it looks like a mixin: its first selector is a
class or an id, and one of its selectors is written with a parenthesis. Then the outline is that of
the style sheet without it. -/
theorem less_shows_rule_sets {d : Document} {settings : LanguageSettings} {t : TokenTree}
    (ok : Analyzer.less.read d settings = .ok t) :
    ∃ items, IsForest (blankComments d.text.toList) items ∧
      ∀ before heading inner last after, items = before ++ .block heading inner last :: after →
        ∀ l : SelectorList, Text.trimChars heading.text = l.written →
          (l.looksLikeMixin = true → Shows (before ++ after) t) ∧
          (l.looksLikeMixin = false → t.nodes.get? (selectorKey l.written) =
            some (shownUnder (selectorKey l.written) before ++ ownDeclarations inner last ++
              shownUnder (selectorKey l.written) after)) := by
  obtain ⟨items, forest, shows⟩ := ((less_read_shows_forest d settings).1 t).1 ok
  refine ⟨items, forest, fun before heading inner last after parts l selects => ?_⟩
  subst parts
  have set : (Item.block heading inner last).ruleSet? = if l.looksLikeMixin then none
      else some (selectorKey l.written, ownDeclarations inner last) := ruleSet?_selectors selects
  refine ⟨fun like => shows.without ?_, fun unlike => shows.get?_ruleSet ?_⟩
  · rw [set, if_pos like]
  · rw [set, unlike]
    rfl

theorem less_shows_rule_sets_negations : ∃ t, Analyzer.less.read negations {} = .ok t ∧
    t.nodes.get? "b, .a:not(.c)" =
      some [{ name := "top", value := some "0", span := some (.onLine 0 16 3) }] ∧
    Shows (negationsItems.take 1) t := by
  obtain ⟨t, read, -⟩ := exists_tree_of_isForest isForest_negations
  have ok : Analyzer.less.read negations {} = .ok t := by
    rw [Analyzer.read, read]
    rfl
  obtain ⟨items, forest, each⟩ := less_shows_rule_sets ok
  obtain rfl := forest.unique isForest_negations
  have first := (each [] _ _ _ _ rfl tagOrNegation rfl).2 (by decide)
  have second := (each (negationsItems.take 1) _ _ _ [] rfl negationAlone rfl).1 (by decide)
  exact ⟨t, ok, first, second⟩

end CodeOutline.Analyzer
