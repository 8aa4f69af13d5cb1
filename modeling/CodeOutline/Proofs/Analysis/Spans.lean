import CodeOutline.Analyzer
import CodeOutline.Proofs.Analysis.Distinct
import CodeOutline.Proofs.Analysis.Spaces
import CodeOutline.Proofs.CFamily.Spans
import CodeOutline.Proofs.Php.Spans
import CodeOutline.Proofs.Python.Spans
import CodeOutline.Proofs.Rapid.Lines

/-!
The places in outlines. In those that are read line by line, names come from text without comments
and without lambda bodies, or from trimmed lines, but they are looked for in the text itself;
wherever a token has a place, its name stands there. In all outlines a place is that of a node, or
goes from the start of one node to the end of another one, or covers a name where it was found on a
line; so both of its ends are points of the text.
-/

set_option autoImplicit false

namespace CodeOutline

open Syntax (Node)
open Text (IsSpan StandsAt byteCount)

/-! ## Names at their places -/

namespace Analysis

theorem right_firstOccurrence (text name : String) :
    ∀ s ∈ Text.firstOccurrence? text name, StandsAt byteCount text name s :=
  fun _ => Text.standsAt_firstOccurrence?

theorem Rules.placed_tree (text : String) : (Rules.tree text).Placed (StandsAt byteCount text) := by
  have lines : ((Text.lines (String.ofList (Text.stripComments text.toList))).foldl
      (Rules.addLine text) .empty).Placed (StandsAt byteCount text) := by
    refine TokenTree.Placed.empty.foldl (fun placed line _ => ?_)
    unfold Rules.addLine
    split
    · exact placed.addImport (right_firstOccurrence text _)
    · split
      · exact placed.addRule (right_firstOccurrence text _)
      · exact placed
  exact lines.foldl (fun placed name _ => placed.addVariable (right_firstOccurrence text name))

theorem Items.placed_tree (text : String) : (Items.tree text).Placed (StandsAt byteCount text) :=
  TokenTree.Placed.empty.foldl
    (fun placed item _ => placed.addItem (right_firstOccurrence text item.2))

end Analysis

/-- The analyzers that read line by line. -/
def Analyzer.lineOriented : List Analyzer := [.rules, .items, .rapid]

/-- Wherever a token of an outline that is read line by line has a place, its name stands between
the columns of the place on one line of the text. -/
theorem names_stand_at_places {a : Analyzer} (among : a ∈ Analyzer.lineOriented) (d : Document)
    (c : Config) : ∃ t, a.analyze d c = .ok t ∧ t.Placed (StandsAt List.length d.text) := by
  have read : ∃ t, a.read d (c.language d.language) = .ok t ∧
      t.Placed (StandsAt byteCount d.text) := by
    simp only [Analyzer.lineOriented, List.mem_cons, List.not_mem_nil, or_false] at among
    rcases among with rfl | rfl | rfl
    · exact ⟨_, rfl, Analysis.Rules.placed_tree d.text⟩
    · exact ⟨_, rfl, Analysis.Items.placed_tree d.text⟩
    · exact ⟨_, rfl, Analysis.Rapid.placed_tree d.text⟩
  obtain ⟨t, reading, placed⟩ := read
  refine ⟨_, Analyzer.analyze_of_read reading, ?_⟩
  split
  · next ascii => exact placed.imp (fun _ _ stands => stands.of_ascii ascii)
  · exact placed.mapSpan (fun _ _ stands => stands.charPoint)

/-- A rule whose name is first met in a comment, behind a character of two bytes. -/
def garden : Document :=
  { language := "openhab", file := "garden.rules"
    text := "/* ä: Regen */ import java.util.Date;\r\nval größe = 3 // [\nrule 'Regen'\nend" }

theorem names_stand_at_places_garden :
    Analyzer.rules ∈ Analyzer.lineOriented ∧
      (∃ t, Analyzer.rules.analyze garden {} = .ok t ∧
        t.Placed (StandsAt List.length garden.text)) ∧
      (Analyzer.rules.analyze garden {}).toOption.map (fun t =>
          (t.imports.map (·.span), t.rules.map (·.span), t.vars.map (·.span))) =
        some ([some (.onLine 0 22 14)], [some (.onLine 0 6 5)], [some (.onLine 1 4 5)]) := by
  have among : Analyzer.rules ∈ Analyzer.lineOriented := by decide
  exact ⟨among, names_stand_at_places among garden {}, by decide +kernel⟩

/-! ## Places as parts of the text -/

variable {text : String} {t : TokenTree} {e : EntityToken} {n : Node}

namespace Analysis

/-! ## Java -/

namespace Java

theorem isSpan_importOf? (here : n.IsOf text.toList) :
    ∀ i ∈ importOf? n, ∀ s ∈ i.span, IsSpan text s := by
  intro i shown
  obtain ⟨path, found, rfl⟩ := Option.map_eq_some_iff.1 shown
  exact (here.named (List.mem_of_find?_eq_some found)).isSpan

theorem eachSpan_addField (each : e.EachSpan (IsSpan text)) (ofInterface : Bool)
    (here : n.IsOf text.toList) : (addField ofInterface e n).EachSpan (IsSpan text) := by
  refine each.foldl (fun each declarator member => ?_)
  split
  · exact each
  · next name named =>
    have place := ((here.ofKind member).child? named).isSpan
    dsimp only
    split
    · exact each.addConstant place
    · exact each.addProperty place

theorem isSpan_parameter? (here : n.IsOf text.toList) :
    ∀ a ∈ parameter? n, ∀ s ∈ a.span, IsSpan text s := by
  intro a shown
  unfold parameter? at shown
  split at shown
  · obtain ⟨name, found, rfl⟩ := Option.map_eq_some_iff.1 shown
    exact (here.child? found).isSpan
  · obtain ⟨declarator, first, shown⟩ := Option.bind_eq_some_iff.1 shown
    obtain ⟨name, found, shown⟩ := Option.bind_eq_some_iff.1 shown
    obtain rfl := Option.some.inj shown
    exact ((here.first? first).child? found).isSpan
  · cases shown

theorem isSpan_method? (here : n.IsOf text.toList) (ofInterface : Bool) :
    ∀ m ∈ method? ofInterface n, ∀ s ∈ m.spans, IsSpan text s := by
  intro m shown
  obtain ⟨name, found, rfl⟩ := Option.map_eq_some_iff.1 shown
  refine forall_methodSpans.2 ⟨(here.child? found).isSpan, ?_⟩
  exact here.isSpan_arguments (fun p => isSpan_parameter?)

theorem eachSpan_addMember (each : e.EachSpan (IsSpan text)) (ofInterface : Bool)
    (here : n.IsOf text.toList) : (addMember ofInterface e n).EachSpan (IsSpan text) := by
  unfold addMember
  split
  · exact eachSpan_addField each ofInterface here
  · exact eachSpan_addField each ofInterface here
  · split
    · next m shown => exact each.addMethod (isSpan_method? here ofInterface m shown)
    · exact each
  · split
    · next m shown => exact each.addMethod (isSpan_method? here ofInterface m shown)
    · exact each
  · exact each

theorem isOf_of_mem_membersOf (here : n.IsOf text.toList) :
    ∀ c ∈ membersOf n, c.IsOf text.toList := by
  unfold membersOf
  split
  · next body found =>
    intro c member
    obtain ⟨d, among, inside⟩ := List.mem_flatMap.1 member
    have inner := (here.child? found).named among
    split at inside
    · exact inner.named inside
    · obtain rfl := List.mem_singleton.1 inside
      exact inner
  · exact List.forall_mem_nil _

theorem eachSpan_entity? (here : n.IsOf text.toList) (space : Option String)
    (position : NamespacePosition) (ofInterface : Bool) :
    ∀ e ∈ entity? space position ofInterface n, e.EachSpan (IsSpan text) := by
  intro e shown
  obtain ⟨name, found, rfl⟩ := Option.map_eq_some_iff.1 shown
  have bare := (here.child? found).isSpan
  refine EntityToken.EachSpan.foldl (.of_bare bare rfl) ?_
  exact fun each c member =>
    eachSpan_addMember each ofInterface (isOf_of_mem_membersOf here c member)

theorem eachSpan_addEntity (each : t.EachSpan (IsSpan text)) (position : NamespacePosition)
    (space : Option String) (here : n.IsOf text.toList) :
    (addEntity position space t n).EachSpan (IsSpan text) := by
  unfold addEntity
  dsimp only
  split
  case h_5 => exact each
  all_goals
    split
    · next e shown => exact each.addEntity (eachSpan_entity? here space position _ e shown)
    · exact each

theorem eachSpan_tree? {settings : LanguageSettings} (read : tree? text settings = some t) :
    t.EachSpan (IsSpan text) := by
  obtain ⟨root, found, rfl⟩ := Option.map_eq_some_iff.1 read
  have here := Grammar.Java.isOf_of_read? found
  refine TokenTree.EachSpan.foldl (TokenTree.EachSpan.foldl ?_ (fun each i member => ?_))
    (fun each n member => eachSpan_addEntity each _ _ (here.named member))
  · split
    · exact TokenTree.EachSpan.empty.setSpace _
    · exact .empty
  · obtain ⟨n, among, shown⟩ := List.mem_filterMap.1 member
    exact each.addImport (isSpan_importOf? (here.child (List.mem_filter.1 among).1) i shown)

end Java

/-! ## Scripts -/

namespace Script

theorem isSpan_parameter? (here : n.IsOf text.toList) :
    ∀ a ∈ parameter? n, ∀ s ∈ a.span, IsSpan text s := by
  intro a shown
  have role {field : String} {f : Node → VarToken} (own : ∀ c : Node, (f c).span = some c.span)
      (shown : (n.child? field).map f = some a) : ∀ s ∈ a.span, IsSpan text s := by
    obtain ⟨c, found, rfl⟩ := Option.map_eq_some_iff.1 shown
    rw [own]
    exact (here.child? found).isSpan
  unfold parameter? at shown
  dsimp only at shown
  split at shown
  · exact role (fun c => rfl) shown
  · exact role (fun c => rfl) shown
  · cases shown
    exact here.isSpan
  · cases shown
    exact here.isSpan
  · exact role (fun c => rfl) shown
  · cases shown

theorem isSpan_callable? (here : n.IsOf text.toList) (isTyped : Bool) :
    ∀ m ∈ callable? isTyped n, ∀ s ∈ m.spans, IsSpan text s := by
  intro m shown
  obtain ⟨name, found, rfl⟩ := Option.map_eq_some_iff.1 shown
  refine forall_methodSpans.2 ⟨(here.child? found).isSpan, ?_⟩
  exact here.isSpan_arguments (fun p => isSpan_parameter?)

theorem eachSpan_addMethod (each : e.EachSpan (IsSpan text)) (isTyped : Bool)
    (here : n.IsOf text.toList) : (addMethod isTyped e n).EachSpan (IsSpan text) := by
  unfold addMethod
  split
  · next name method named shown =>
    have places := isSpan_callable? here isTyped method shown
    split
    · exact each.addAccessor (forall_methodSpans.1 places).1
    · exact each.addMethod places
  · exact each

theorem eachSpan_addField (each : e.EachSpan (IsSpan text)) (isTyped : Bool)
    (here : n.IsOf text.toList) : (addField isTyped e n).EachSpan (IsSpan text) := by
  unfold addField
  split
  · exact each
  · next name named => exact each.addProperty (here.child? named).isSpan

theorem eachSpan_addClassMember (each : e.EachSpan (IsSpan text)) (isTyped : Bool)
    (here : n.IsOf text.toList) : (addClassMember isTyped e n).EachSpan (IsSpan text) := by
  unfold addClassMember
  split
  · exact eachSpan_addMethod each isTyped here
  · exact eachSpan_addMethod each isTyped here
  · exact eachSpan_addField each isTyped here
  · exact each

theorem eachSpan_addInterfaceMember (each : e.EachSpan (IsSpan text)) (isTyped : Bool)
    (here : n.IsOf text.toList) : (addInterfaceMember isTyped e n).EachSpan (IsSpan text) := by
  unfold addInterfaceMember
  split
  · split
    · exact each
    · next name named => exact each.addProperty (here.child? named).isSpan
  · split
    · next method shown => exact each.addMethod (isSpan_callable? here isTyped method shown)
    · exact each
  · exact each

theorem eachSpan_addEntity (each : t.EachSpan (IsSpan text)) (s : Setting) (kind : EntityKind)
    {addMember : Bool → EntityToken → Node → EntityToken}
    (keeps : ∀ (e : EntityToken) (c : Node), e.EachSpan (IsSpan text) → c.IsOf text.toList →
      (addMember s.isTyped e c).EachSpan (IsSpan text))
    (here : n.IsOf text.toList) : (addEntity s kind addMember t n).EachSpan (IsSpan text) := by
  unfold addEntity
  split
  · exact each
  · next name named =>
    refine each.addEntity ?_
    have bare := (here.child? named).isSpan
    exact EntityToken.EachSpan.foldl (.of_bare bare rfl)
      (fun each c member => keeps _ c each (here.named_under "body" c member))

theorem eachSpan_addImport (each : t.EachSpan (IsSpan text)) (here : n.IsOf text.toList) :
    (addImport t n).EachSpan (IsSpan text) := by
  unfold addImport
  split
  · exact each
  · next source found => exact each.addImport (here.child? found).isSpan

theorem eachSpan_addVariables (each : t.EachSpan (IsSpan text)) (isTyped : Bool)
    (here : n.IsOf text.toList) : (addVariables isTyped t n).EachSpan (IsSpan text) := by
  refine each.foldl (fun each declarator member => ?_)
  split
  · next name named =>
    split
    · exact each.addVariable ((here.ofKind member).child? named).isSpan
    · exact each
  · exact each

theorem eachSpan_addFunction (each : t.EachSpan (IsSpan text)) (isTyped : Bool)
    (here : n.IsOf text.toList) : (addFunction isTyped t n).EachSpan (IsSpan text) := by
  unfold addFunction
  split
  · next f shown => exact each.addFunction (isSpan_callable? here isTyped f shown)
  · exact each

theorem eachSpan_own (each : t.EachSpan (IsSpan text)) (s : Setting) (here : n.IsOf text.toList) :
    (own s t n).EachSpan (IsSpan text) := by
  unfold own
  split
  case h_1 => exact eachSpan_addImport each here
  case h_2 | h_3 =>
    split
    · exact each
    · split
      · exact each.setSpace _
      · exact each
  case h_4 | h_5 | h_6 =>
    exact eachSpan_addEntity each s .class
      (fun e c each inner => eachSpan_addClassMember each s.isTyped inner) here
  case h_7 =>
    exact eachSpan_addEntity each s .interface
      (fun e c each inner => eachSpan_addInterfaceMember each s.isTyped inner) here
  case h_8 => exact eachSpan_addFunction each s.isTyped here
  case h_9 | h_10 => exact eachSpan_addVariables each s.isTyped here
  case h_11 => exact each

theorem isOf_of_mem_entered (here : n.IsOf text.toList) : ∀ c ∈ entered n, c.IsOf text.toList := by
  unfold entered
  split
  case h_1 =>
    split
    · next declared found => exact List.forall_mem_singleton.2 (here.child? found)
    · exact fun c member => here.named member
  case h_2 | h_3 =>
    split
    · next body _ found => exact fun c member => (here.child? found).named member
    · exact List.forall_mem_nil _
  case h_4 => exact fun c member => here.ofKind member
  case h_5 => exact fun c member => here.named member
  case h_6 => exact List.forall_mem_nil _

theorem eachSpan_visit (s : Setting) (t : TokenTree) (n : Node) (each : t.EachSpan (IsSpan text))
    (here : n.IsOf text.toList) : (visit s t n).EachSpan (IsSpan text) := by
  rw [visit_eq]
  refine (eachSpan_own each s here).foldl (fun {t} each c member => ?_)
  have := sizeOf_of_mem_entered member
  exact eachSpan_visit _ t c each (isOf_of_mem_entered here c member)
termination_by sizeOf n

theorem eachSpan_tree? {dialect : Grammar.Script.Dialect} {settings : LanguageSettings}
    (read : tree? text dialect settings = some t) : t.EachSpan (IsSpan text) := by
  obtain ⟨root, found, rfl⟩ := Option.map_eq_some_iff.1 read
  have here := Grammar.Script.isOf_of_read? found
  refine TokenTree.EachSpan.foldl ?_
    (fun {t} each n member => eachSpan_visit _ t n each (here.named member))
  split
  · exact TokenTree.EachSpan.empty.setStrict _
  · exact .empty

end Script

/-! ## Style sheets -/

namespace Css

theorem isSpan_ruleSet? (here : n.IsOf text.toList) :
    ∀ set ∈ ruleSet? n, ∀ d ∈ set.2, ∀ s ∈ d.span, IsSpan text s := by
  intro set shown
  obtain ⟨selectors, -, rfl⟩ := Option.map_eq_some_iff.1 shown
  dsimp only
  split
  · next block found =>
    intro d member
    obtain ⟨declaration, among, declares⟩ := List.mem_filterMap.1 member
    obtain ⟨property, first, rfl⟩ := Option.map_eq_some_iff.1 declares
    exact (((here.first? found).ofKind among).first? first).isSpan
  · exact List.forall_mem_nil _

theorem eachSpan_addItem (each : t.EachSpan (IsSpan text)) (here : n.IsOf text.toList) :
    (addItem t n).EachSpan (IsSpan text) := by
  unfold addItem
  split
  · split
    · next selector declarations shown =>
      exact each.addDeclarations (isSpan_ruleSet? here (selector, declarations) shown)
    · exact each
  · split
    · next block found =>
      refine each.foldl (fun each set member => ?_)
      obtain ⟨rule, among, shown⟩ := List.mem_filterMap.1 member
      exact each.addMediaDeclarations (isSpan_ruleSet? ((here.first? found).ofKind among) set shown)
    · exact each
  · exact each

theorem eachSpan_tree? (read : tree? text = some t) : t.EachSpan (IsSpan text) := by
  obtain ⟨root, found, rfl⟩ := Option.map_eq_some_iff.1 read
  have here := Grammar.Css.isOf_of_read? found
  exact TokenTree.EachSpan.empty.foldl
    (fun each n member => eachSpan_addItem each (here.named member))

end Css

/-! ## JSON -/

namespace Json

theorem isSpan_valueToken (name : String) (n : Node) (here : n.IsOf text.toList) :
    ∀ s ∈ (valueToken name n).spans, IsSpan text s := by
  have own : ∀ s ∈ [n.span], IsSpan text s := List.forall_mem_singleton.2 (here.isSpan _ rfl)
  unfold valueToken
  dsimp only
  split
  · refine List.forall_mem_append.2 ⟨own, ?_⟩
    rw [dataSpans_eq_flatMap, List.forall_mem_flatMap]
    intro d member
    obtain ⟨⟨pair, among⟩, -, shown⟩ := List.mem_filterMap.1 member
    dsimp only at shown
    split at shown
    · split at shown
      · next value found =>
        obtain rfl := Option.some.inj shown
        have := Nat.lt_trans (Node.sizeOf_of_child? found) (Node.sizeOf_of_mem_named among)
        exact isSpan_valueToken _ value ((here.named among).child? found)
      · cases shown
    · cases shown
  · refine List.forall_mem_append.2 ⟨own, ?_⟩
    rw [dataSpans_eq_flatMap, List.forall_mem_flatMap]
    intro d member
    obtain ⟨index, short, rfl⟩ := List.mem_mapIdx.1 member
    have among := (n.named.attach.filter (fun e => e.1.kind != "comment"))[index].2
    have := Node.sizeOf_of_mem_named among
    exact isSpan_valueToken _ _ (here.named among)
  · exact List.forall_mem_append.2 ⟨own, List.forall_mem_nil _⟩
termination_by sizeOf n

theorem eachSpan_tree? (read : tree? text = some t) : t.EachSpan (IsSpan text) := by
  obtain ⟨root, found, rfl⟩ := Option.map_eq_some_iff.1 read
  have here := Grammar.Json.isOf_of_read? found
  split
  · next value first =>
    have inner := here.named (List.mem_of_find?_eq_some first)
    exact TokenTree.EachSpan.empty.setData (isSpan_valueToken "" value inner)
  · exact .empty

end Json

/-! ## Lines -/

theorem isSpan_firstOccurrence (text name : String) :
    ∀ s ∈ Text.firstOccurrence? text name, IsSpan text s :=
  fun s found => (right_firstOccurrence text name s found).isSpan

theorem Rules.eachSpan_tree (text : String) : (Rules.tree text).EachSpan (IsSpan text) := by
  have lines : ((Text.lines (String.ofList (Text.stripComments text.toList))).foldl
      (Rules.addLine text) .empty).EachSpan (IsSpan text) := by
    refine TokenTree.EachSpan.empty.foldl (fun each line _ => ?_)
    unfold Rules.addLine
    split
    · exact each.addImport (isSpan_firstOccurrence text _)
    · split
      · exact each.addRule (isSpan_firstOccurrence text _)
      · exact each
  exact lines.foldl (fun each name _ => each.addVariable (isSpan_firstOccurrence text name))

theorem Items.eachSpan_tree (text : String) : (Items.tree text).EachSpan (IsSpan text) :=
  TokenTree.EachSpan.empty.foldl
    (fun each item _ => each.addItem (isSpan_firstOccurrence text item.2))

namespace Rapid

theorem isSpan_arguments (written : String) :
    ∀ a ∈ arguments written, ∀ s ∈ a.span, IsSpan text s := by
  intro a member
  obtain ⟨part, -, rfl⟩ := List.mem_map.1 member
  exact fun _ absent => absurd absent (Option.not_mem_none _)

theorem eachSpan_addLine (each : t.EachSpan (IsSpan text)) {line : Line}
    (member : line ∈ linesOf text) : (addLine t line).EachSpan (IsSpan text) := by
  obtain ⟨raw, number⟩ := line
  have there : (Text.lines text)[number]? = some raw := List.mem_zipIdx_iff_getElem?.1 member
  have place (d : Declaration) (found : declaration? (Text.trim (withoutComment raw)) = some d) :
      ∀ s ∈ some (Text.placeInLine number raw d.name), IsSpan text s := by
    rintro s ⟨⟩
    exact (Text.standsAt_placeInLine there (name_inside found)).isSpan
  unfold addLine
  dsimp only
  split
  · exact each
  · next name found =>
    split
    · exact each
    · exact each.addEntity (.of_bare (place (.module name) found) rfl)
  · next name found =>
    exact each.updateLastClass (fun e own => own.addProperty (place (.record name) found))
  · next type name written found =>
    split
    · exact each
    · refine each.updateLastClass (fun e own => own.addMethod (forall_methodSpans.2 ?_))
      exact ⟨place (.routine type name written) found, isSpan_arguments written⟩
  · next type name found =>
    split
    · exact each
    · refine each.addFunction (forall_methodSpans.2 ⟨place (.trap type name) found, ?_⟩)
      exact List.forall_mem_nil _

theorem eachSpan_tree (text : String) : (tree text).EachSpan (IsSpan text) :=
  TokenTree.EachSpan.empty.foldl (fun each _ member => eachSpan_addLine each member)

end Rapid

end Analysis

namespace Analyzer

theorem eachSpan_read {a : Analyzer} {d : Document} {settings : LanguageSettings}
    (other : a ≠ .less) (ok : a.read d settings = .ok t) : t.EachSpan (IsSpan d.text) := by
  cases a with
  | php => exact Analysis.Php.eachSpan_tree? (eq_some_of_orSyntaxError ok)
  | java => exact Analysis.Java.eachSpan_tree? (eq_some_of_orSyntaxError ok)
  | script => exact Analysis.Script.eachSpan_tree? (eq_some_of_orSyntaxError ok)
  | cfamily =>
    cases listed : symbols d with
    | error failure => simp [read, listed, Except.map] at ok
    | ok found =>
      simp only [read, listed, Except.map, Except.ok.injEq] at ok
      subst ok
      refine Analysis.CFamily.eachSpan_tree ?_ settings
      unfold symbols at listed
      split at listed
      · split at listed
        · next symbols read =>
          cases listed
          exact Analysis.Symbols.isSpan_symbols? read
        · cases listed
      · cases listed
  | python => exact Analysis.Python.eachSpan_tree? (eq_some_of_orSyntaxError ok)
  | rules =>
    obtain rfl := Except.ok.inj ok
    exact Analysis.Rules.eachSpan_tree d.text
  | items =>
    obtain rfl := Except.ok.inj ok
    exact Analysis.Items.eachSpan_tree d.text
  | css => exact Analysis.Css.eachSpan_tree? (eq_some_of_orSyntaxError ok)
  | less => exact absurd rfl other
  | rapid =>
    obtain rfl := Except.ok.inj ok
    exact Analysis.Rapid.eachSpan_tree d.text
  | json => exact Analysis.Json.eachSpan_tree? (eq_some_of_orSyntaxError ok)

end Analyzer

end CodeOutline
