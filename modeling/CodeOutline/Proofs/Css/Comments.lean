import CodeOutline.Analyzer
import CodeOutline.Proofs.Css.Tokens
import CodeOutline.Proofs.Syntax.Copies
import CodeOutline.Proofs.Text.Bytes
import CodeOutline.Proofs.Token.Styles

/-!
Style sheets with a comment more. The grammar reads them as it does without the comment: every rule
takes characters before it stands inside itself, and all its tokens and conditions are kept, so
every node has its copy. The outline cuts its texts out of the source, though: a comment between
selectors, in front of the block of a media block or in a value is shown. Everywhere else it
changes nothing.
-/

set_option autoImplicit false

namespace CodeOutline.Grammar.Css

open Syntax Syntax.Scan

/-! ## The depth of the rules -/

theorem fills_nameScan : nameScan.Fills := by
  have start : (Scan.seq (Scan.opt (Scan.text "-")) (Scan.one isNameStart)).Fills :=
    .seq_right _ (.one _)
  refine .seq_left ?_ _
  exact .alt (.text (by decide)) (.alt start ⟨rfl, fun _ => nofun⟩)

theorem fills_plainScan : plainScan.Fills :=
  .all_of_mem (a := Scan.one Char.isAlpha) (by simp) (.one _)

theorem fills_float : (Scan.seq floatScan unit).Fills := by
  have fraction : (Scan.all [Scan.text ".", Scan.run1 digit, Scan.opt (Scan.all
      [Scan.one (fun c => c == 'e' || c == 'E'), Scan.opt (Scan.text "-"),
        Scan.run1 digit])]).Fills := .seq_left (.text (by decide)) _
  have tail : (Scan.all [Scan.one (fun c => c == 'e' || c == 'E'), Scan.opt (Scan.text "-"),
      Scan.run1 digit]).Fills := .seq_left (.one _) _
  exact .seq_left (.seq_right _ (.seq_right _ (.seq_left (.alt fraction tail) _))) _

theorem fills_integer : (Scan.all [signScan, Scan.run1 digit, unit]).Fills :=
  .all_of_mem (a := Scan.run1 digit) (by simp) (.run1 _)

theorem fills_colorScan : colorScan.Fills := .seq_left (.text (by decide)) _

theorem fills_string : (Scan.alt (stringScan '"') (stringScan '\'')).Fills :=
  .alt (.seq_left (.one _) _) (.seq_left (.one _) _)

theorem fills_className : (Scan.seq
    (Scan.alt (Scan.seq (Scan.text "\\") (Scan.one (· != '\n'))) nameScan)
    (Scan.many (Scan.alt (Scan.seq (Scan.text "\\") (Scan.one (· != '\n')))
      (Scan.run1 isNameChar)))).Fills :=
  .seq_left (.alt (.seq_left (.text (by decide)) _) fills_nameScan) _

theorem isPlain_rules (rule : Name) : (rules rule).IsPlain := by
  have text {s : String} (filled : s ≠ "") : (Scan.text s).Fills := .text filled
  have keyword (w : List Char → Bool) (p : Char → Bool) :
      (Scan.such w (Scan.seq (Scan.text "@") (Scan.run1 p))).Fills :=
    .such w (.seq_left (.text (by decide)) _)
  cases rule <;>
    simp (disch := decide) only [rules, Rule.IsPlain, Rule.choice, Rule.sequence, Rule.commas,
      Rule.commas0, Rule.separated, Rule.opt, Rule.many1, Rule.words, Rule.signs, Rule.tight,
      simple, combined, refinement, pseudo, bracketed, queries, values, declaration,
      lastDeclaration, declarationParts, keyframes, atKeyword, name, string, joined, descent,
      className, List.map_cons, List.map_nil, List.cons_append, List.nil_append, and_self,
      fills_nameScan, fills_float, fills_integer, fills_colorScan, fills_plainScan, fills_string,
      fills_className, text, keyword]

/-- How deep the rules stand inside each other before a character is taken. -/
def height : Name → Nat
  | .item => 32
  | _ => 16

theorem measured : grammar.Measured (fun _ => true) height 64 where
  plain := isPlain_rules
  takesSome rule _ := by cases rule <;> rfl
  height_le rule := by cases rule <;> decide
  within rule := by cases rule <;> decide

/-! ## Conditions on the cursor -/

namespace CommentFits

variable {i : Insertion} (fits : CommentFits i) {c c' : Cursor}

include fits

theorem keeps_tight : (Rule.tight : Rule Name).Keeps grammar i := by
  intro c c' here
  have same := here.offset_eq_iff (fits.spaced.leads.cursors here)
  rw [Bool.eq_iff_iff, beq_iff_eq, beq_iff_eq, eq_comm, same, eq_comm]

/-- What is passed over in front of a token never ends at the place of the comment, for a blank
stands behind it. -/
theorem isBlankBefore_lead (here : i.Cursors c c') :
    isBlankBefore c (grammar.lead c).2 = isBlankBefore c' (grammar.lead c').2 := by
  have led := fits.spaced.leads.cursors here
  have forth := (Grammar.inOrder_lead (g := grammar) c).le
  have ended := (Grammar.passes_lead fits.spaced.nothing c).ended
  generalize (grammar.lead c).2 = d, (grammar.lead c').2 = d' at led forth ended
  obtain ⟨b, bs, back, isBlank⟩ := fits.back
  unfold isBlankBefore
  rcases here.cases with ⟨passed, rest, parts, some_, place, text, place', text'⟩ |
    ⟨passed, parts, place, place', same⟩
  · have whole := congrArg List.length parts
    rw [List.length_append] at whole
    rcases led.cases with ⟨passed₁, rest₁, parts₁, some₁, place₁, -, place₁', -⟩ |
      ⟨passed₁, parts₁, place₁, place₁', -⟩
    · have whole₁ := congrArg List.length parts₁
      rw [List.length_append] at whole₁
      rw [place, text, place', text', place₁, place₁', Place.behind_offset, Place.behind_offset]
      rw [List.take_append_of_le_length (by omega), List.take_append_of_le_length (by omega)]
    · rcases passed₁.eq_nil_or_concat with rfl | ⟨es, e, rfl⟩
      · -- The cursor would stand before the blank.
        rw [List.nil_append, back] at parts₁
        rw [← parts₁] at ended
        refine absurd ?_ (ended (bs.takeWhile blank).length none)
        show Scan.between _ (b :: bs) = _
        rw [Scan.between, if_pos isBlank, List.takeWhile_cons_of_pos isBlank, List.length_cons]
      · rw [List.concat_eq_append] at parts₁ place₁ place₁'
        have last : (i.back.take (es.length + 1)).getLast? = some e := by
          rw [parts₁, List.take_left' (by simp), List.getLast?_concat]
        have bare : (i.front ++ (es ++ [e])).length - passed.length =
            rest.length + (es.length + 1) := by
          simp only [List.length_append, List.length_singleton]
          omega
        have commented : (i.front ++ (i.comment ++ (es ++ [e]))).length - passed.length =
            rest.length + (i.comment.length + (es.length + 1)) := by
          simp only [List.length_append, List.length_singleton]
          omega
        rw [place, text, place', text', place₁, place₁', Place.behind_offset, Place.behind_offset,
          Place.behind_offset, bare, commented, List.take_length_add_append,
          List.take_length_add_append, List.take_length_add_append]
        dsimp only
        rw [List.getLast?_append, List.getLast?_append, List.getLast?_append, last]
        rfl
  · rcases led.cases with ⟨passed₁, rest₁, parts₁, some₁, place₁, -, -, -⟩ |
      ⟨passed₁, parts₁, place₁, place₁', -⟩
    · have whole₁ := congrArg List.length parts₁
      have some₁ := List.length_pos_iff.2 some₁
      rw [place, place₁, Place.behind_offset, Place.behind_offset, List.length_append] at forth
      rw [List.length_append] at whole₁
      omega
    · have far : d.place.offset - c.place.offset = d'.place.offset - c'.place.offset := by
        rw [place, place', place₁, place₁']
        simp only [Place.behind_offset, List.length_append]
        omega
      rw [same, far]

theorem keeps_joined : joined.Keeps grammar i := fun c c' here => by
  dsimp only
  rw [fits.isBlankBefore_lead here]

theorem opensBlock_colon {passed rest : List Char} (parts : i.front = passed ++ ':' :: rest) :
    opensBlock (rest ++ i.back) = opensBlock (rest ++ (i.comment ++ i.back)) := by
  unfold opensBlock
  rw [List.find?_append, List.find?_append, List.find?_append]
  rcases fits.colons with free | ends
  · have none_ : i.comment.find? "\x7b\x7d;".toList.contains = none := by
      simpa using free
    rw [none_, Option.none_or]
  · obtain ⟨c, member, isMark⟩ := ends _ _ parts
    have some_ : (rest.find? "\x7b\x7d;".toList.contains).isSome = true := by
      rw [List.find?_isSome]
      exact ⟨c, member, by simpa using isMark⟩
    rw [Option.or_of_isSome some_, Option.or_of_isSome some_]

theorem keeps_descent : descent.Keeps grammar i := by
  intro c c' here
  dsimp only
  rw [fits.isBlankBefore_lead here]
  refine congrArg _ ?_
  rcases (fits.spaced.leads.cursors here).cases with
    ⟨passed, rest, parts, some_, -, text, -, text'⟩ | ⟨passed, parts, -, -, same⟩
  · obtain ⟨r, rs, rfl⟩ := List.exists_cons_of_ne_nil some_
    rw [text, text']
    by_cases colon : r = ':'
    · subst colon
      have filled : rs ≠ [] := by
        rintro rfl
        obtain ⟨front, b, whole, isBlank, -⟩ := fits.front
        rw [whole] at parts
        obtain rfl := (List.cons.inj (List.append_inj' parts rfl).2).1
        exact absurd isBlank (by decide)
      obtain ⟨s, ss, rfl⟩ := List.exists_cons_of_ne_nil filled
      exact congrArg ((!blank s) && ·) (fits.opensBlock_colon parts)
    · rw [List.cons_append, List.cons_append]
      split
      · next same => exact absurd (List.cons.inj same).1 colon
      · next same =>
        obtain ⟨rfl, -⟩ := List.cons.inj same
        rfl
      · next same => cases same
  · rw [same]

/-! ## Rules -/

theorem keeps_leaf {a : Scan} (stays : a.Stays) (kind : String) :
    (Rule.leaf kind a : Rule Name).Keeps grammar i := stays.keeps fits.front

theorem keeps_sign {s : String} (letters : s.toList.all (fun c => !blank c) = true) :
    (Rule.sign s : Rule Name).Keeps grammar i := by
  rintro scan ⟨⟩
  exact (Stays.text letters).keeps fits.front

theorem keeps_word {s : String} (letters : s.toList.all (fun c => !blank c) = true) :
    (Rule.word s : Rule Name).Keeps grammar i :=
  fun scan token => (Stays.word grammar rfl letters scan token).keeps fits.front

theorem keeps_string : string.Keeps grammar i :=
  .alt (fits.keeps_stringScan (by simp)) (fits.keeps_stringScan (by simp))

theorem keeps_keyword (w : List Char → Bool) {p : Char → Bool} (solid : Solid p) :
    (Rule.leaf "at_keyword" (Scan.such w (Scan.seq (Scan.text "@") (Scan.run1 p))) :
      Rule Name).Keeps grammar i :=
  fits.keeps_leaf (.such w (.seq (.text (by decide)) (.run1 solid))) _

theorem keeps_rules (rule : Name) : (rules rule).Keeps grammar i := by
  have name := fits.keeps_leaf stays_nameScan
  have float := fits.keeps_leaf stays_float
  have integer := fits.keeps_leaf stays_integer
  have color := fits.keeps_leaf stays_colorScan
  have plain := fits.keeps_leaf stays_plainScan
  have escaped := fits.keeps_leaf stays_className
  have text {s : String} (letters : s.toList.all (fun c => !blank c) = true) :=
    fits.keeps_leaf (.text letters)
  have keyword (w : List Char → Bool) := fits.keeps_keyword w (p := fun c =>
    c.isAlpha || c == '-' || c == '_') (solid_of_all (by decide))
  have keyframe (w : List Char → Bool) := fits.keeps_keyword w solid_isNameChar
  have sign {s : String} := fits.keeps_sign (s := s)
  have word {s : String} := fits.keeps_word (s := s)
  cases rule <;>
    simp (disch := decide) only [rules, ↓ sign, ↓ word, ↓ name, ↓ float, ↓ integer, ↓ color,
      ↓ plain, ↓ escaped, ↓ text, ↓ keyword, ↓ keyframe, ↓ fits.keeps_tight, ↓ fits.keeps_joined,
      ↓ fits.keeps_descent, ↓ fits.keeps_string, Rule.Keeps, Rule.choice, Rule.sequence,
      Rule.commas, Rule.commas0, Rule.separated, Rule.opt, Rule.many1, Rule.words, Rule.signs,
      simple, combined, refinement, pseudo, bracketed, queries, values, declaration,
      lastDeclaration, declarationParts, keyframes, atKeyword, Css.name, className,
      List.map_cons, List.map_nil, List.cons_append, List.nil_append, and_self]

/-- A style sheet is well formed without the comment exactly if it is with it, and then every node
has its copy. The last node of either list stands for the end of the text. -/
theorem copies_of_read? :
    (read? i.bare = none ∧ read? i.commented = none) ∨
      ∃ root root' last last', read? i.bare = some root ∧ read? i.commented = some root' ∧
        i.Alike last last' ∧ last.kind = "" ∧
        i.Copies (root.children ++ [last]) (root'.children ++ [last']) :=
  Grammar.copies_of_read? (a := .many (.call Name.item)) fits.spaced.leads fits.keeps_rules trivial
    measured trivial rfl (by decide) (by decide) fits.front.ne_nil "stylesheet"

end CommentFits

theorem isNested_of_read? {text : List Char} {root : Node} (read : read? text = some root) :
    root.IsNested :=
  Grammar.isNested_of_still (fun rule => by cases rule <;> rfl) rfl read

end CodeOutline.Grammar.Css

namespace CodeOutline.Analysis.Css

open Syntax Grammar.Css

/-! ## The outline in one piece -/

/-- The rule sets that stand in a node, by their selector keys. -/
def ruleSets (n : Node) : List (String × List VarToken) :=
  (n.named.filter (·.kind == "rule_set")).filterMap ruleSet?

def mediaSets? (n : Node) : Option (List (String × String × List VarToken)) :=
  (n.first? "block").map (fun block => (ruleSets block).map (fun g => (condition n block, g)))

def mediaSets (n : Node) : List (String × String × List VarToken) :=
  ((n.named.filter (·.kind == "media_statement")).filterMap mediaSets?).flatten

theorem foldl_addMediaDeclarations (t : TokenTree) (condition : String)
    (sets : List (String × List VarToken)) :
    sets.foldl (fun t (selector, declarations) =>
      t.addMediaDeclarations condition selector declarations) t =
    { t with
      media := sets.foldl (fun m g =>
        m.upsert condition (fun old => (old.getD .empty).extend g.1 g.2)) t.media } := by
  induction sets generalizing t with
  | nil => rfl
  | cons g sets ih =>
    rw [List.foldl_cons, ih]
    rfl

theorem tree?_eq (text : String) : tree? text = (Grammar.Css.read? text.toList).map (fun root =>
    { nodes := selectorsOf (ruleSets root), media := mediaOf (mediaSets root) }) := by
  refine congrArg (Option.map · _) (funext fun root => ?_)
  unfold ruleSets mediaSets selectorsOf mediaOf
  induction root.named using List.reverseRecOn with
  | nil => rfl
  | append_singleton nodes n ih =>
    rw [List.foldl_append, List.foldl_cons, List.foldl_nil, ih]
    simp only [List.filter_append, List.filterMap_append, List.flatten_append, List.foldl_append]
    unfold addItem
    split
    · next kind =>
      have others : [n].filter (·.kind == "media_statement") = [] := by simp [kind]
      have here : [n].filter (·.kind == "rule_set") = [n] := by simp [kind]
      rw [others, here]
      cases found : ruleSet? n <;> simp [found, TokenTree.addDeclarations]
    · next kind =>
      have others : [n].filter (·.kind == "rule_set") = [] := by simp [kind]
      have here : [n].filter (·.kind == "media_statement") = [n] := by simp [kind]
      rw [others, here]
      unfold mediaSets?
      cases found : n.first? "block" with
      | none => simp [found]
      | some block =>
        simp only [List.filterMap_cons, found, Option.map_some, List.filterMap_nil,
          List.flatten_cons, List.flatten_nil, List.append_nil, List.foldl_map, List.foldl_nil]
        exact foldl_addMediaDeclarations _ _ _
    · next other other' =>
      have none_ : [n].filter (·.kind == "rule_set") = [] := by simpa using other
      have none_' : [n].filter (·.kind == "media_statement") = [] := by simpa using other'
      rw [none_, none_']
      simp

/-! ## Where a comment is not shown -/

/-- The place stands between the name and the colon of a declaration, and the comment has no colon
of its own. -/
structure IsBeforeColon (i : Insertion) (d : Node) : Prop where
  name : ∀ property, d.first? "property_name" = some property →
    property.stop.offset < i.front.length
  colon : ':' ∉ i.before d
  comment : ':' ∉ i.comment

/-- The place stands neither in the selectors of the rule set nor in one of its values. -/
structure IsClear (i : Insertion) (r : Node) : Prop where
  selectors : ∀ selectors, r.first? "selectors" = some selectors → ¬i.Around selectors
  declarations : ∀ block, r.first? "block" = some block → ∀ d ∈ block.named,
    d.kind = "declaration" → i.Around d → IsBeforeColon i d

/-- The place stands neither in front of the block of a media block nor in the selectors or in a
value of a rule set that is shown. -/
structure StandsClear (i : Insertion) (root : Node) : Prop where
  ruleSets : ∀ r ∈ root.named, r.kind = "rule_set" → IsClear i r
  conditions : ∀ m ∈ root.named, m.kind = "media_statement" → ∀ block,
    m.first? "block" = some block →
      ¬(m.start.offset < i.front.length ∧ i.front.length ≤ block.start.offset)
  media : ∀ m ∈ root.named, m.kind = "media_statement" → ∀ block, m.first? "block" = some block →
    ∀ r ∈ block.named, r.kind = "rule_set" → IsClear i r

theorem StandsClear.of_apart {i : Insertion} {root : Node} (nested : root.IsNested)
    (apart : ∀ n ∈ root.named, ¬i.Around n) : StandsClear i root := by
  have children {n c : Node} (nested : n.IsNested) (apart : ¬i.Around n) (member : c ∈ n.named) :
      c.IsNested ∧ ¬i.Around c :=
    have child := Node.mem_children_of_mem_named member
    ⟨nested.child child, fun around => apart (around.of_child nested child)⟩
  have first {n c : Node} {kind : String} (found : n.first? kind = some c) : c ∈ n.named :=
    List.mem_of_find?_eq_some found
  have clear {r : Node} (nested : r.IsNested) (apart : ¬i.Around r) : IsClear i r := by
    refine ⟨fun s found => (children nested apart (first found)).2, fun b found d member _ => ?_⟩
    obtain ⟨nestedB, apartB⟩ := children nested apart (first found)
    exact fun around => absurd around (children nestedB apartB member).2
  have top {n : Node} (member : n ∈ root.named) : n.IsNested :=
    nested.child (Node.mem_children_of_mem_named member)
  refine ⟨fun r member _ => clear (top member) (apart r member), fun m member _ b found head => ?_,
    fun m member _ b found r inside _ => ?_⟩
  · have inBlock := (top member).child (Node.mem_children_of_mem_named (first found))
    have ends := (top member).stop_le (Node.mem_children_of_mem_named (first found))
    exact apart m member ⟨head.1, Nat.le_trans head.2 (Nat.le_trans inBlock.start_le_stop ends)⟩
  · obtain ⟨nestedB, apartB⟩ := children (top member) (apart m member) (first found)
    obtain ⟨nestedR, apartR⟩ := children nestedB apartB inside
    exact clear nestedR apartR

structure Twins (i : Insertion) (n n' : Node) : Prop where
  alike : i.Alike n n'
  children : i.Copies n.children n'.children
  nested : n.IsNested
  nested' : n'.IsNested

variable {i : Insertion} {n n' : Node} {place : Span}

theorem Twins.first? (twins : Twins i n n') (kind : String) (other : kind ≠ "comment") :
    (n.first? kind = none ∧ n'.first? kind = none) ∨
      ∃ m m', n.first? kind = some m ∧ n'.first? kind = some m' ∧ m ∈ n.children ∧
        Twins i m m' := by
  rcases twins.children.first? other with
    fails | ⟨m, m', found, found', member, member', alike, kids⟩
  · exact .inl fails
  · exact .inr ⟨m, m', found, found', member, alike, kids, twins.nested.child member,
      twins.nested'.child member'⟩

theorem cutFirst?_of_twins (twins : Twins i n n') (clear : i.Around n → IsBeforeColon i n) :
    (Text.cutFirst? [':'] n.chars).map (·.2) = (Text.cutFirst? [':'] n'.chars).map (·.2) := by
  by_cases around : i.Around n
  · obtain ⟨-, colon, comment⟩ := clear around
    obtain ⟨behind, chars, chars'⟩ := twins.alike.chars_of_around around
    have free {cs : List Char} (absent : ':' ∉ cs) : ∀ c ∈ cs, c ≠ ':' :=
      fun c member same => absent (same ▸ member)
    rw [chars, chars', Text.cutFirst?_append_of_others (free colon),
      Text.cutFirst?_append_of_others (free colon), Text.cutFirst?_append_of_others (free comment),
      Option.map_map, Option.map_map, Option.map_map]
    rfl
  · rw [twins.alike.chars around]

theorem declaration?_of_twins (twins : Twins i n n') (clear : i.Around n → IsBeforeColon i n) :
    (declaration? n).map (VarToken.mapSpan fun _ => place) =
      (declaration? n').map (VarToken.mapSpan fun _ => place) := by
  unfold declaration?
  rcases twins.first? "property_name" (by decide) with
    ⟨missing, missing'⟩ | ⟨m, m', found, found', member, property⟩
  · rw [missing, missing']
    rfl
  · have apart : ¬i.Around m := by
      intro around
      have behind := (clear (around.of_child twins.nested member)).name m found
      exact absurd around.2 (Nat.not_le_of_lt behind)
    have cut := cutFirst?_of_twins twins clear
    rw [found, found']
    simp only [Option.map_some, VarToken.mapSpan, property.alike.text apart]
    generalize Text.cutFirst? [':'] n.chars = one, Text.cutFirst? [':'] n'.chars = other at cut
    cases one with
    | none =>
      cases other with
      | none => rfl
      | some _ => cases cut
    | some value =>
      cases other with
      | none => cases cut
      | some value' =>
        have same : value.2 = value'.2 := Option.some.inj cut
        dsimp only
        rw [same]

theorem Twins.filterMap_eq {β : Type} {f : Node → Option β} {kind : String} (twins : Twins i n n')
    (other : kind ≠ "comment")
    (each : ∀ m m', m ∈ n.named → m.kind = kind → Twins i m m' → f m = f m') :
    (n.named.filter (·.kind == kind)).filterMap f =
      (n'.named.filter (·.kind == kind)).filterMap f :=
  twins.children.filterMap_eq other fun m member m' member' isNamed ofKind alike kids =>
    each m m' (List.mem_filter.2 ⟨member, isNamed⟩) ofKind
      ⟨alike, kids, twins.nested.child member, twins.nested'.child member'⟩

theorem ruleSet?_of_twins (filled : i.comment ≠ []) (twins : Twins i n n') (clear : IsClear i n) :
    (ruleSet? n).map (mapPlaces fun _ => place) = (ruleSet? n').map (mapPlaces fun _ => place) := by
  unfold ruleSet?
  rcases twins.first? "selectors" (by decide) with
    ⟨missing, missing'⟩ | ⟨s, s', found, found', -, selectors⟩
  · rw [missing, missing']
    rfl
  have apart := clear.selectors s found
  -- No selector has the comment in it, and it is none of them.
  have key : s.named.map (fun s => Text.collapse s.text) =
      s'.named.map (fun s => Text.collapse s.text) := by
    have texts := selectors.children.texts
      (fun m member around => apart (around.of_child selectors.nested member))
      (fun x member isComment =>
        apart (selectors.alike.around_of_isComment selectors.nested' filled member isComment))
    have collapsed := congrArg (List.map Text.collapse) texts
    rwa [List.map_map, List.map_map] at collapsed
  rw [found, found', Option.map_some, Option.map_some, key, Option.map_some, Option.map_some]
  refine congrArg some (Prod.ext rfl ?_)
  rcases twins.first? "block" (by decide) with
    ⟨missing, missing'⟩ | ⟨b, b', found, found', -, block⟩
  · rw [missing, missing']
  · rw [found, found']
    show ((b.named.filter (·.kind == "declaration")).filterMap declaration?).map _ =
      ((b'.named.filter (·.kind == "declaration")).filterMap declaration?).map _
    rw [List.map_filterMap, List.map_filterMap]
    exact block.filterMap_eq (by decide) fun d d' member ofKind declaration =>
      declaration?_of_twins declaration (clear.declarations b found d member ofKind)

theorem ruleSets_of_twins (filled : i.comment ≠ []) (twins : Twins i n n')
    (clear : ∀ r ∈ n.named, r.kind = "rule_set" → IsClear i r) :
    (ruleSets n).map (mapPlaces fun _ => place) = (ruleSets n').map (mapPlaces fun _ => place) := by
  unfold ruleSets
  rw [List.map_filterMap, List.map_filterMap]
  exact twins.filterMap_eq (by decide) fun r r' member ofKind set =>
    ruleSet?_of_twins filled set (clear r member ofKind)

theorem mediaSets?_of_twins (filled : i.comment ≠ []) (twins : Twins i n n')
    (condition : ∀ block, n.first? "block" = some block →
      ¬(n.start.offset < i.front.length ∧ i.front.length ≤ block.start.offset))
    (clear : ∀ block, n.first? "block" = some block → ∀ r ∈ block.named, r.kind = "rule_set" →
      IsClear i r) :
    (mediaSets? n).map (List.map fun g => (g.1, mapPlaces (fun _ => place) g.2)) =
      (mediaSets? n').map (List.map fun g => (g.1, mapPlaces (fun _ => place) g.2)) := by
  unfold mediaSets?
  rcases twins.first? "block" (by decide) with
    ⟨missing, missing'⟩ | ⟨b, b', found, found', -, block⟩
  · simp only [missing, missing', Option.map_none]
  · have head : Css.condition n b = Css.condition n' b' := by
      unfold Css.condition
      rw [twins.alike.textBefore block.alike (condition b found)]
    have sets : (ruleSets b).map (mapPlaces fun _ => place) =
        (ruleSets b').map (mapPlaces fun _ => place) :=
      ruleSets_of_twins filled block (clear b found)
    rw [found, found', Option.map_some, Option.map_some, Option.map_some, Option.map_some,
      List.map_map, List.map_map, head]
    have under := congrArg (List.map fun g => (Css.condition n' b', g)) sets
    rw [List.map_map, List.map_map] at under
    simp only [Function.comp_def] at under ⊢
    rw [under]

/-! ## Documents -/

theorem filter_mark (xs : List Node) {last : Node} (mark : last.kind = "") {kind : String}
    (other : kind ≠ "") :
    ((xs ++ [last]).filter (·.isNamed)).filter (·.kind == kind) =
      (xs.filter (·.isNamed)).filter (·.kind == kind) := by
  have none_ : ([last].filter (·.isNamed)).filter (·.kind == kind) = [] := by
    rw [List.filter_filter]
    simp [mark, Ne.symm other]
  rw [List.filter_append, List.filter_append, none_, List.append_nil]

theorem filterMap_of_copies {β : Type} {f : Node → Option β} {kind : String}
    {root root' last last' : Node} (nested : root.IsNested) (nested' : root'.IsNested)
    (alike : i.Alike last last') (mark : last.kind = "")
    (copies : i.Copies (root.children ++ [last]) (root'.children ++ [last']))
    (other : kind ≠ "comment") (proper : kind ≠ "")
    (each : ∀ m m', m ∈ root.named → m.kind = kind → Twins i m m' → f m = f m') :
    (root.named.filter (·.kind == kind)).filterMap f =
      (root'.named.filter (·.kind == kind)).filterMap f := by
  have child {root last m : Node} (mark : last.kind = "") (member : m ∈ root.children ++ [last])
      (ofKind : m.kind = kind) : m ∈ root.children := by
    refine (List.mem_append.1 member).resolve_right fun same => proper ?_
    rw [← ofKind, List.mem_singleton.1 same, mark]
  have mark' := alike.kind.symm.trans mark
  unfold Node.named
  rw [← filter_mark root.children mark proper, ← filter_mark root'.children mark' proper]
  refine copies.filterMap_eq other fun m member m' member' isNamed ofKind alike kids => ?_
  have here := child mark member ofKind
  have here' := child mark' member' (alike.kind.symm.trans ofKind)
  exact each m m' (List.mem_filter.2 ⟨here, isNamed⟩) ofKind
    ⟨alike, kids, nested.child here, nested'.child here'⟩

/-- A style sheet with a comment that is clear of selectors, values and conditions has the outline
of the style sheet without it. -/
theorem sameButPlaces_of_standsClear (fits : CommentFits i) {root root' last last' : Node}
    (read : Grammar.Css.read? i.bare = some root)
    (read' : Grammar.Css.read? i.commented = some root')
    (alike : i.Alike last last') (mark : last.kind = "")
    (copies : i.Copies (root.children ++ [last]) (root'.children ++ [last']))
    (clear : StandsClear i root) :
    TokenTree.SameButPlaces
      { nodes := selectorsOf (ruleSets root), media := mediaOf (mediaSets root) }
      { nodes := selectorsOf (ruleSets root'), media := mediaOf (mediaSets root') } := by
  have nested := isNested_of_read? read
  have nested' := isNested_of_read? read'
  have filled := fits.spaced.filled
  refine TokenTree.sameButPlaces_styles (fun place => ?sets) (fun place => ?media)
  case sets =>
    unfold ruleSets
    rw [List.map_filterMap, List.map_filterMap]
    exact filterMap_of_copies nested nested' alike mark copies (by decide) (by decide)
      fun r r' member ofKind twins =>
        ruleSet?_of_twins filled twins (clear.ruleSets r member ofKind)
  case media =>
    unfold mediaSets
    rw [List.map_flatten, List.map_flatten, List.map_filterMap, List.map_filterMap]
    refine congrArg List.flatten ?_
    exact filterMap_of_copies nested nested' alike mark copies (by decide) (by decide)
      fun m m' member ofKind twins => mediaSets?_of_twins filled twins
        (clear.conditions m member ofKind) (clear.media m member ofKind)

/-- With the comment the outline of the style sheet differs at most in places. -/
def KeepsOutline (i : Insertion) : Prop :=
  ∀ t t', tree? (String.ofList i.bare) = some t → tree? (String.ofList i.commented) = some t' →
    t.SameButPlaces t'

/-- A short comment with a blank on each side. -/
def noted (front back : String) : Insertion :=
  ⟨front.toList ++ [' '], "/* c */".toList, ' ' :: back.toList⟩

theorem fits_noted {front : String} (noSlash : '/' ∉ front.toList)
    (free : front.toList.getLast? ≠ some '\\') (back : String) : CommentFits (noted front back) :=
  .of_plain ⟨front.toList, ' ', rfl, by decide, free⟩ ⟨' ', back.toList, rfl, by decide⟩
    (by simpa [noted] using noSlash) [' ', 'c', ' '] rfl (by decide) rfl

/-- The keys of the rule sets with their values, and the conditions of the media blocks. -/
def texts (t : TokenTree) : List (String × List (Option String)) × List String :=
  (t.nodes.entries.map (fun (key, ds) => (key, ds.map (·.value))), t.media.keys)

theorem texts_eq {t t' : TokenTree} (same : t.SameButPlaces t') : texts t = texts t' := by
  have moved (t : TokenTree) (f : Span → Span) : texts (t.mapSpan f) = texts t := by
    simp [texts, TokenTree.mapSpan, SelectorMap.mapSpan, OrderedMap.map, OrderedMap.keys,
      VarToken.mapSpan]
  rw [← moved t fun _ => default, same default, moved]

theorem not_keepsOutline_of_texts {i : Insertion}
    (differ : ∃ xs ys, xs ≠ ys ∧ (tree? (String.ofList i.bare)).map texts = some xs ∧
      (tree? (String.ofList i.commented)).map texts = some ys) : ¬KeepsOutline i := by
  obtain ⟨xs, ys, other, shown, shown'⟩ := differ
  obtain ⟨t, read, rfl⟩ := Option.map_eq_some_iff.1 shown
  obtain ⟨t', read', rfl⟩ := Option.map_eq_some_iff.1 shown'
  exact fun keeps => other (texts_eq (keeps t t' read read'))

/-- A comment is shown among the selectors. -/
def inSelectors : Insertion := noted "a" ", b \x7b color: red; \x7d"

/-- A comment is shown in a value. -/
def inValue : Insertion := noted "a \x7b color: red" "; \x7d"

/-- A comment is shown in the condition of a media block. -/
def inCondition : Insertion := noted "@media" "print \x7b a \x7b top: 0; \x7d \x7d"

theorem not_keepsOutline :
    (CommentFits inSelectors ∧ ¬KeepsOutline inSelectors) ∧
      (CommentFits inValue ∧ ¬KeepsOutline inValue) ∧
      CommentFits inCondition ∧ ¬KeepsOutline inCondition := by
  refine ⟨⟨fits_noted (by decide) (by decide) _, not_keepsOutline_of_texts ?selectors⟩,
    ⟨fits_noted (by decide) (by decide) _, not_keepsOutline_of_texts ?value⟩,
    fits_noted (by decide) (by decide) _, not_keepsOutline_of_texts ?condition⟩
  case selectors =>
    exact ⟨([("a,b", [some "red"])], []), ([("a,/* c */,b", [some "red"])], []), by decide,
      by decide +kernel, by decide +kernel⟩
  case value =>
    exact ⟨([("a", [some "red"])], []), ([("a", [some "red /* c */"])], []), by decide,
      by decide +kernel, by decide +kernel⟩
  case condition =>
    exact ⟨([], ["print"]), ([], ["/* c */ print"]), by decide, by decide +kernel,
      by decide +kernel⟩

end CodeOutline.Analysis.Css

namespace CodeOutline.Analyzer

open Syntax Analysis.Css Grammar.Css

/-- A block comment with the blanks around it never makes a style sheet well formed or ill formed,
compared with the blanks alone. The outlines differ at most in places when the comment stands
neither in the selectors of a rule set, nor in front of the block of a media block, nor in a
declaration behind its colon. -/
theorem css_comments {i : Insertion} (fits : CommentFits i) {d d' : Document}
    (bare : d.text.toList = i.bare) (commented : d'.text.toList = i.commented)
    (settings : LanguageSettings) :
    ((∃ t, Analyzer.css.read d settings = .ok t) ↔ ∃ t, Analyzer.css.read d' settings = .ok t) ∧
      ∀ root, Grammar.Css.read? i.bare = some root → StandsClear i root →
        ∃ t t', Analyzer.css.read d settings = .ok t ∧ Analyzer.css.read d' settings = .ok t' ∧
          t.SameButPlaces t' := by
  have run (d : Document) : Analyzer.css.read d settings = orSyntaxError d
      ((Grammar.Css.read? d.text.toList).map fun root =>
        { nodes := selectorsOf (ruleSets root), media := mediaOf (mediaSets root) }) :=
    congrArg (orSyntaxError d) (tree?_eq d.text)
  rw [run, run, bare, commented]
  rcases fits.copies_of_read? with
    ⟨fails, fails'⟩ | ⟨root, root', last, last', read, read', alike, mark, copies⟩
  · rw [fails, fails']
    refine ⟨⟨?_, ?_⟩, fun root read => ?_⟩
    · rintro ⟨t, ⟨⟩⟩
    · rintro ⟨t, ⟨⟩⟩
    · cases read
  · rw [read, read']
    refine ⟨⟨fun _ => ⟨_, rfl⟩, fun _ => ⟨_, rfl⟩⟩, fun root₁ same clear => ?_⟩
    obtain rfl := Option.some.inj same
    exact ⟨_, _, rfl, rfl, sameButPlaces_of_standsClear fits read read' alike mark copies clear⟩

theorem css_comments_between_rule_sets : ∃ t t',
    Analyzer.css.read { language := "css", file := "a.css", text :=
      "a \x7b color: red; \x7d  b \x7b top: 0; \x7d" } {} = .ok t ∧
    Analyzer.css.read { language := "css", file := "a.css", text :=
      "a \x7b color: red; \x7d /* c */ b \x7b top: 0; \x7d" } {} = .ok t' ∧
    t.SameButPlaces t' := by
  have fits : CommentFits (noted "a \x7b color: red; \x7d" "b \x7b top: 0; \x7d") :=
    fits_noted (by decide) (by decide) _
  have apart : (Grammar.Css.read?
      (noted "a \x7b color: red; \x7d" "b \x7b top: 0; \x7d").bare).map (fun root =>
        root.named.all fun n => !(n.start.offset < 18 && 18 ≤ n.stop.offset)) = some true := by
    decide +kernel
  obtain ⟨root, read, far⟩ := Option.map_eq_some_iff.1 apart
  refine (css_comments fits (by decide) (by decide) {}).2 root read
    (.of_apart (isNested_of_read? read) fun n member around => ?_)
  have outside := List.all_eq_true.1 far n member
  obtain ⟨starts, stops⟩ : n.start.offset < 18 ∧ 18 ≤ n.stop.offset := around
  rw [decide_eq_true starts, decide_eq_true stops] at outside
  cases outside

end CodeOutline.Analyzer
