import CodeOutline.Proofs.Less.Forest
import CodeOutline.Proofs.Token.Styles

/-!
What a style sheet shows of its forest: of the blocks at top level that are rule sets their own
declarations, and of the statements at top level those that declare variables. The reading by
levels comes to the same, whatever stands inside of other blocks.
-/

set_option autoImplicit false

namespace CodeOutline.Analysis.Less

open EntityToken (insertNew)

/-! ## What an item shows -/

/-- The heading of an at-rule or of the definition of a mixin. -/
def isPassedOver (heading : List Char) : Bool :=
  heading.head? = some '@' || isMixinDefinition heading

namespace Item

/-- What an item declares for the rule set that it stands in. -/
def declaration? : Item → Option VarToken
  | .statement p => Less.declaration? (p.ended .semicolon)
  | .block _ _ _ => none

/-- The variable that an item declares at top level. -/
def var? : Item → Option VarToken
  | .statement p =>
    if (Text.trimChars p.text).head? = some '@' then
      (Less.declaration? (p.ended .semicolon)).map (fun v => { v with isStatic := true })
    else none
  | .block _ _ _ => none

/-- The selectors of a rule set at top level and what is declared directly inside. -/
def ruleSet? : Item → Option (String × List VarToken)
  | .statement _ => none
  | .block heading items last =>
    if isPassedOver (Text.trimChars heading.text) then none
    else some (selectorKey (Text.trimChars heading.text),
      items.filterMap declaration? ++ (Less.declaration? (last.ended .closing)).toList)

/-- The item with nothing between its braces. -/
def emptied : Item → Item
  | .statement p => .statement p
  | .block heading _ last => .block heading [] { last with text := [] }

/-- The item at top level without what is inside of blocks that are passed over. -/
def bare : Item → Item
  | .statement p => .statement p
  | .block heading items last =>
    if isPassedOver (Text.trimChars heading.text) then emptied (.block heading items last)
    else .block heading (items.map emptied) last

theorem declaration?_emptied (item : Item) : item.emptied.declaration? = item.declaration? := by
  cases item <;> rfl

theorem var?_bare (item : Item) : item.bare.var? = item.var? := by
  cases item with
  | statement p => rfl
  | block heading items last =>
    rw [bare]
    split <;> rfl

theorem ruleSet?_bare (item : Item) : item.bare.ruleSet? = item.ruleSet? := by
  cases item with
  | statement p => rfl
  | block heading items last =>
    by_cases passed : isPassedOver (Text.trimChars heading.text) = true
    · rw [bare, if_pos passed, emptied, ruleSet?, ruleSet?, if_pos passed, if_pos passed]
    · have same : (items.map emptied).filterMap declaration? = items.filterMap declaration? := by
        rw [List.filterMap_map]
        exact congrArg (items.filterMap ·) (funext declaration?_emptied)
      rw [bare, if_neg passed, ruleSet?, ruleSet?, if_neg passed, if_neg passed, same]

end Item

/-- The tree has the variables of the items, the first of each name, and under each selector what
the rule sets with it declare, and nothing else. -/
structure Shows (items : List Item) (t : TokenTree) : Prop where
  vars : t.vars = firsts (·.name) (items.filterMap Item.var?)
  nodes : t.nodes.entries = grouped (items.filterMap Item.ruleSet?)
  others : t = { TokenTree.empty with vars := t.vars, nodes := t.nodes }

theorem Shows.unique {items : List Item} {t t' : TokenTree} (shows : Shows items t)
    (shows' : Shows items t') : t = t' := by
  have vars : t.vars = t'.vars := shows.vars.trans shows'.vars.symm
  have nodes : t.nodes = t'.nodes := OrderedMap.ext (shows.nodes.trans shows'.nodes.symm)
  rw [shows.others, shows'.others, vars, nodes]

theorem shows_bare_iff (items : List Item) (t : TokenTree) :
    Shows (items.map Item.bare) t ↔ Shows items t := by
  have vars : (items.map Item.bare).filterMap Item.var? = items.filterMap Item.var? := by
    rw [List.filterMap_map]
    exact congrArg (items.filterMap ·) (funext Item.var?_bare)
  have sets : (items.map Item.bare).filterMap Item.ruleSet? = items.filterMap Item.ruleSet? := by
    rw [List.filterMap_map]
    exact congrArg (items.filterMap ·) (funext Item.ruleSet?_bare)
  constructor
  · rintro ⟨v, n, others⟩
    exact ⟨vars ▸ v, sets ▸ n, others⟩
  · rintro ⟨v, n, others⟩
    exact ⟨vars ▸ v, sets ▸ n, others⟩

/-! ## The reading of a forest -/

section Reading

variable (t : TokenTree) (ss : List Statement)

mutual

private theorem walk_passing_item (rule : Option (String × List VarToken)) (depth : Nat)
    (ss : List Statement) : (item : Item) →
    walk (.passing rule depth) t (item.statements ++ ss) = walk (.passing rule depth) t ss
  | .statement _ => walk_of_step (by cases depth <;> rfl) ss
  | .block heading items last => by
    have opens : step (.passing rule depth) t (heading.ended .opening) =
        .ok (.passing rule (depth + 1), t) := by
      cases depth <;> rfl
    have closes : step (.passing rule (depth + 1)) t (last.ended .closing) =
        .ok (.passing rule depth, t) := rfl
    rw [Item.statements, List.cons_append, walk_of_step opens, List.append_assoc,
      walk_passing rule (depth + 1), List.singleton_append, walk_of_step closes]

private theorem walk_passing (rule : Option (String × List VarToken)) (depth : Nat)
    (ss : List Statement) : (items : List Item) →
    walk (.passing rule depth) t (statementsOf items ++ ss) = walk (.passing rule depth) t ss
  | [] => rfl
  | item :: items => by
    rw [statementsOf, List.append_assoc, walk_passing_item rule depth, walk_passing rule depth]

end

private theorem walk_block (rule : Option (String × List VarToken)) (items : List Item)
    (last : Piece) :
    walk (.passing rule 0) t (statementsOf items ++ last.ended .closing :: ss) =
      walk (Level.resume rule) t ss := by
  have closes : step (.passing rule 0) t (last.ended .closing) = .ok (Level.resume rule, t) := rfl
  rw [walk_passing, walk_of_step closes]

private theorem walk_body (selector : String) (ds : List VarToken) (items : List Item) :
    walk (.body selector ds) t (statementsOf items ++ ss) =
      walk (.body selector (ds ++ items.filterMap Item.declaration?)) t ss := by
  induction items generalizing ds with
  | nil => rw [List.filterMap_nil, List.append_nil]; rfl
  | cons item items ih =>
    cases item with
    | statement p =>
      have reads : step (.body selector ds) t (p.ended .semicolon) =
          .ok (.body selector (ds ++ (declaration? (p.ended .semicolon)).toList), t) := rfl
      rw [statementsOf_statement, walk_of_step reads, ih, List.append_assoc, List.filterMap_cons]
      cases declared : Item.declaration? (.statement p) with
      | none =>
        rw [Item.declaration?] at declared
        rw [declared]
        rfl
      | some d =>
        rw [Item.declaration?] at declared
        rw [declared]
        rfl
    | block heading inner last =>
      have opens : step (.body selector ds) t (heading.ended .opening) =
          .ok (.passing (some (selector, ds)) 0, t) := rfl
      rw [statementsOf_block, walk_of_step opens, walk_block, Level.resume, ih]
      rfl

private def withItem (t : TokenTree) (item : Item) : TokenTree :=
  match item.var?, item.ruleSet? with
  | some v, _ => t.addVariable v
  | none, some (selector, ds) => t.addDeclarations selector ds
  | none, none => t

private theorem step_top_semicolon (p : Piece) :
    step .top t (p.ended .semicolon) = .ok (.top, withItem t (.statement p)) := by
  obtain ⟨text, start⟩ := p
  change step .top t { text, start, ending := .semicolon } = _
  simp only [step, withItem, Item.var?, Item.ruleSet?, Piece.ended]
  by_cases atSign : (Text.trimChars text).head? = some '@'
  · rw [if_pos atSign, if_pos atSign]
    cases declaration? { text, start, ending := .semicolon } <;> rfl
  · rw [if_neg atSign, if_neg atSign]

private theorem walk_item (item : Item) (items : List Item) :
    walk .top t (statementsOf (item :: items) ++ ss) =
      walk .top (withItem t item) (statementsOf items ++ ss) := by
  cases item with
  | statement p => exact walk_of_step (step_top_semicolon t p) _
  | block heading inner last =>
    rw [statementsOf_block]
    by_cases passed : isPassedOver (Text.trimChars heading.text) = true
    · have opens : step .top t (heading.ended .opening) = .ok (.passing none 0, t) := if_pos passed
      have shown : withItem t (.block heading inner last) = t := by
        simp only [withItem, Item.var?, Item.ruleSet?, if_pos passed]
      rw [walk_of_step opens, walk_block, shown, Level.resume]
    · have opens : step .top t (heading.ended .opening) =
          .ok (.body (selectorKey (Text.trimChars heading.text)) [], t) := if_neg passed
      have closes (selector : String) (ds : List VarToken) :
          step (.body selector ds) t (last.ended .closing) =
            .ok (.top, t.addDeclarations selector
              (ds ++ (declaration? (last.ended .closing)).toList)) := rfl
      have shown : withItem t (.block heading inner last) =
          t.addDeclarations (selectorKey (Text.trimChars heading.text))
            (inner.filterMap Item.declaration? ++ (declaration? (last.ended .closing)).toList) := by
        simp only [withItem, Item.var?, Item.ruleSet?, if_neg passed]
      rw [walk_of_step opens, walk_body, walk_of_step (closes _ _), shown, List.nil_append]

private theorem walk_top (items : List Item) (last : Piece) :
    walk .top t (statementsOf items ++ [last.ended .eof]) = .ok (items.foldl withItem t) := by
  induction items generalizing t with
  | nil =>
    have ends : step .top t (last.ended .eof) = .ok (.top, t) := rfl
    exact walk_of_step ends []
  | cons item items ih => rw [walk_item, ih, List.foldl_cons]

end Reading

private theorem foldl_withItem (vars : List VarToken) (nodes : SelectorMap) (items : List Item) :
    items.foldl withItem { TokenTree.empty with vars, nodes } =
      { TokenTree.empty with
        vars := (items.filterMap Item.var?).foldl (insertNew (·.name)) vars
        nodes := (items.filterMap Item.ruleSet?).foldl (fun m g => m.extend g.1 g.2) nodes } := by
  induction items generalizing vars nodes with
  | nil => rfl
  | cons item items ih =>
    rw [List.foldl_cons]
    cases item with
    | statement p =>
      have noSet : (Item.statement p).ruleSet? = none := rfl
      cases var : (Item.statement p).var? with
      | none =>
        have shown (t : TokenTree) : withItem t (.statement p) = t := by
          rw [withItem, var, noSet]
        rw [shown, ih, List.filterMap_cons_none var, List.filterMap_cons_none noSet]
      | some v =>
        have shown (t : TokenTree) : withItem t (.statement p) = t.addVariable v := by
          rw [withItem, var]
        rw [shown, List.filterMap_cons_some var, List.filterMap_cons_none noSet, List.foldl_cons]
        exact ih ..
    | block heading inner last =>
      have noVar : (Item.block heading inner last).var? = none := rfl
      cases set : (Item.block heading inner last).ruleSet? with
      | none =>
        have shown (t : TokenTree) : withItem t (.block heading inner last) = t := by
          rw [withItem, noVar, set]
        rw [shown, ih, List.filterMap_cons_none noVar, List.filterMap_cons_none set]
      | some g =>
        have shown (t : TokenTree) :
            withItem t (.block heading inner last) = t.addDeclarations g.1 g.2 := by
          rw [withItem, noVar, set]
        rw [shown, List.filterMap_cons_none noVar, List.filterMap_cons_some set, List.foldl_cons]
        exact ih ..

private theorem shows_foldl_withItem (items : List Item) :
    Shows items (items.foldl withItem .empty) := by
  have gathered := foldl_withItem [] .empty items
  have start : { TokenTree.empty with vars := [], nodes := .empty } = TokenTree.empty := rfl
  rw [start] at gathered
  rw [gathered]
  exact ⟨foldl_insertNew_nil _ _, entries_selectorsOf _, rfl⟩

theorem exists_tree_of_isForest {text : String} {items : List Item}
    (forest : IsForest (blankComments text.toList) items) :
    ∃ t, tree text = .ok t ∧ Shows items t := by
  obtain ⟨last, whole⟩ := forest
  refine ⟨_, ?_, shows_foldl_withItem items⟩
  rw [tree, statements_eq_cut, whole, walk_top]

theorem tree_eq_ok_iff (text : String) (t : TokenTree) :
    tree text = .ok t ↔
      ∃ items, IsForest (blankComments text.toList) items ∧ Shows items t := by
  constructor
  · intro read
    obtain ⟨items, forest⟩ := (exists_forest_iff _).2 ((tree_isOk_iff text).1 ⟨t, read⟩)
    obtain ⟨t', read', shows⟩ := exists_tree_of_isForest forest
    obtain rfl := Except.ok.inj (read.symm.trans read')
    exact ⟨items, forest, shows⟩
  · rintro ⟨items, forest, shows⟩
    obtain ⟨t', read, shows'⟩ := exists_tree_of_isForest forest
    rw [read, shows.unique shows']

end CodeOutline.Analysis.Less

namespace CodeOutline.Analyzer

open Analysis.Less

/-- A style sheet with variables is read as the one forest of its statements and blocks, whose
braces are those that count. Its tree holds what the rule sets at top level declare directly
inside, gathered under their selectors, and the variables that statements at top level declare, the
first of each name. What is inside of nested blocks, mixin definitions and at-rules is never
shown. -/
theorem less_read_shows_forest (d : Document) (settings : LanguageSettings) :
    (∀ t, Analyzer.less.read d settings = .ok t ↔
      ∃ items, IsForest (blankComments d.text.toList) items ∧ Shows items t) ∧
    (∀ items items', IsForest (blankComments d.text.toList) items →
      IsForest (blankComments d.text.toList) items' → items = items') ∧
    (∀ items, IsForest (blankComments d.text.toList) items →
      bracesOf items = structuralBraces (blankComments d.text.toList)) ∧
    (∀ items t, Shows items t ↔ Shows (items.map Item.bare) t) := by
  refine ⟨?read, ?one, ?braces, ?hidden⟩
  case read =>
    intro t
    rw [← tree_eq_ok_iff]
    cases outcome : tree d.text with
    | ok t' =>
      have read : Analyzer.less.read d settings = .ok t' := by
        rw [Analyzer.read, outcome]
        rfl
      rw [read]
      simp
    | error message =>
      have read : Analyzer.less.read d settings = .error (.parseFailure d.file message) := by
        rw [Analyzer.read, outcome]
        rfl
      rw [read]
      simp
  case one => exact fun items items' forest forest' => forest.unique forest'
  case braces => exact fun items forest => forest.bracesOf_eq
  case hidden => exact fun items t => (shows_bare_iff items t).symm

end CodeOutline.Analyzer
