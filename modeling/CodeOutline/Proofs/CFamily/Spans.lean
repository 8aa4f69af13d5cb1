import CodeOutline.Analysis.CFamily
import CodeOutline.Analysis.Symbols
import CodeOutline.Proofs.Syntax.Grammars
import CodeOutline.Proofs.Token.Spans

/-!
The places of symbols, and of the tokens that are made from them: from the start of a name to the
end of its declaration.
-/

set_option autoImplicit false

namespace CodeOutline.Analysis

open Syntax (Node)
open Text (IsSpan)

variable {text : String} {t : TokenTree} {n : Node}

namespace Symbols

theorem isSpan_symbolAt {name : Node} (named : name.IsOf text.toList) (here : n.IsOf text.toList)
    (kind : SymbolKind) (container : Option String) (label : String) :
    IsSpan text (symbolAt kind container label name n).span :=
  ⟨named.start.isWithin, here.stop.isWithin⟩

theorem isOf_resolve? (isFunction : Bool) (n : Node) (here : n.IsOf text.toList) :
    ∀ found ∈ resolve? isFunction n, found.1.IsOf text.toList := by
  intro found resolved
  unfold resolve? at resolved
  split at resolved
  · cases resolved
    exact here
  · split at resolved
    · next d inner =>
      have := Node.sizeOf_of_child? inner
      exact isOf_resolve? _ d (here.child? inner) found resolved
    · split at resolved
      · cases resolved
      · split at resolved
        · cases resolved
        · next c rest inner =>
          have among : c ∈ n.named := inner ▸ List.mem_cons_self
          have := Node.sizeOf_of_mem_named among
          exact isOf_resolve? _ c (here.named among) found resolved
termination_by sizeOf n

theorem isOf_declared (here : n.IsOf text.toList) :
    ∀ found ∈ declared n, found.1.IsOf text.toList := by
  intro found member
  obtain ⟨d, among, resolved⟩ := List.mem_filterMap.1 member
  exact isOf_resolve? false d (here.child (List.mem_filter.1 among).1) found resolved

theorem isOf_bodyOf (here : n.IsOf text.toList) : ∀ c ∈ bodyOf n, c.IsOf text.toList :=
  here.named_under "body"

theorem isSpan_named (here : n.IsOf text.toList) (kind : SymbolKind) (container : Option String) :
    ∀ s ∈ named kind container n, IsSpan text s.span := by
  unfold named
  split
  · next name found =>
    exact List.forall_mem_singleton.2 (isSpan_symbolAt (here.child? found) here _ _ _)
  · exact List.forall_mem_nil _

theorem isSpan_fields (here : n.IsOf text.toList) (container : Option String) :
    ∀ s ∈ fields container n, IsSpan text s.span := by
  unfold fields
  split
  · next declaration found =>
    intro s member
    obtain ⟨d, among, listed⟩ := List.mem_flatMap.1 member
    obtain ⟨name, first, rfl⟩ := Option.map_eq_some_iff.1 (Option.mem_toList.1 listed)
    exact isSpan_symbolAt (((here.first? found).ofKind among).child? first) here _ _ _
  · intro s member
    obtain ⟨⟨name, isFunction⟩, among, rfl⟩ := List.mem_map.1 member
    exact isSpan_symbolAt (isOf_declared here _ among) here _ _ _

theorem isSpan_function (here : n.IsOf text.toList) (container : Option String) :
    ∀ s ∈ function container n, IsSpan text s.span := by
  unfold function
  split
  · exact List.forall_mem_nil _
  · next name isFunction found =>
    obtain ⟨d, inner, resolved⟩ := Option.bind_eq_some_iff.1 found
    have named := isOf_resolve? false d (here.child? inner) _ resolved
    split
    · split
      · exact List.forall_mem_singleton.2 (isSpan_symbolAt named here _ _ _)
      · exact List.forall_mem_nil _
    · split
      · exact List.forall_mem_singleton.2 (isSpan_symbolAt named here _ _ _)
      · exact List.forall_mem_singleton.2 (isSpan_symbolAt named here _ _ _)

theorem isSpan_declarators (here : n.IsOf text.toList) (container : Option String) :
    ∀ s ∈ declarators container n, IsSpan text s.span := by
  intro s member
  obtain ⟨⟨name, isFunction⟩, among, listed⟩ := List.mem_flatMap.1 member
  have named := isOf_declared here _ among
  dsimp only at listed
  split at listed
  · cases List.mem_singleton.1 listed
    exact isSpan_symbolAt named here _ _ _
  · cases List.mem_singleton.1 listed
    exact isSpan_symbolAt named here _ _ _
  · cases listed
  · cases List.mem_singleton.1 listed
    exact isSpan_symbolAt named here _ _ _

theorem isSpan_symbolsOf (container : Option String) (n : Node) (here : n.IsOf text.toList) :
    ∀ s ∈ symbolsOf container n, IsSpan text s.span := by
  unfold symbolsOf
  split
  case h_1 | h_2 | h_3 =>
    refine List.forall_mem_append.2 ⟨isSpan_named here _ container, fun s member => ?_⟩
    obtain ⟨⟨c, among⟩, -, listed⟩ := List.mem_flatMap.1 member
    have := sizeOf_of_mem_bodyOf among
    exact isSpan_symbolsOf _ c (isOf_bodyOf here c among) s listed
  case h_4 =>
    dsimp only
    split
    · exact List.forall_mem_nil _
    · exact List.forall_mem_singleton.2 (isSpan_symbolAt here here _ _ _)
  case h_5 =>
    split
    · next path found =>
      exact List.forall_mem_singleton.2 (isSpan_symbolAt (here.child? found) here _ _ _)
    · exact List.forall_mem_nil _
  case h_6 => exact isSpan_fields here container
  case h_7 => exact isSpan_named here _ container
  case h_8 => exact isSpan_named here _ container
  case h_9 => exact isSpan_named here _ container
  case h_10 => exact isSpan_function here container
  case h_11 =>
    refine List.forall_mem_append.2 ⟨?_, isSpan_declarators here container⟩
    split
    · next type typed =>
      split
      · have := Node.sizeOf_of_child? typed
        exact isSpan_symbolsOf _ type (here.child? typed)
      · exact List.forall_mem_nil _
    · exact List.forall_mem_nil _
  case h_12 =>
    split
    · exact List.forall_mem_nil _
    · next type typed =>
      have inner := here.child? typed
      split
      · exact List.forall_mem_nil _
      · next name found =>
        have named : name.IsOf text.toList := by
          rw [Option.orElse_eq_or] at found
          rcases Option.or_eq_some_iff.1 found with own | ⟨-, declared⟩
          · exact inner.child? own
          · exact here.child? declared
        split
        · refine List.forall_mem_cons.2 ⟨isSpan_symbolAt named here _ _ _, fun s member => ?_⟩
          obtain ⟨⟨c, among⟩, -, listed⟩ := List.mem_flatMap.1 member
          have := Nat.lt_trans (sizeOf_of_mem_bodyOf among) (Node.sizeOf_of_child? typed)
          exact isSpan_symbolsOf _ c (isOf_bodyOf inner c among) s listed
        · exact List.forall_mem_nil _
  case h_13 =>
    split
    · next name _ found =>
      refine List.forall_mem_cons.2
        ⟨isSpan_symbolAt (here.child? found) here _ _ _, fun s member => ?_⟩
      obtain ⟨⟨c, among⟩, -, listed⟩ := List.mem_flatMap.1 member
      have := sizeOf_of_mem_bodyOf among
      exact isSpan_symbolsOf _ c (isOf_bodyOf here c among) s listed
    · split
      · intro s member
        obtain ⟨⟨c, among⟩, -, listed⟩ := List.mem_flatMap.1 member
        have := Node.sizeOf_of_mem_named among
        exact isSpan_symbolsOf _ c (here.named among) s listed
      · exact List.forall_mem_nil _
termination_by sizeOf n

theorem isOf_root? {language : String} {root : Node} (read : root? language text = some root) :
    root.IsOf text.toList := by
  unfold root? at read
  split at read
  · exact Grammar.Cpp.isOf_of_read? read
  · exact Grammar.Cpp.isOf_of_read? read
  · exact Grammar.CSharp.isOf_of_read? read
  · cases read

theorem isSpan_symbols? {language : String} {symbols : List Symbol}
    (read : symbols? language text = some symbols) : ∀ s ∈ symbols, IsSpan text s.span := by
  obtain ⟨root, found, rfl⟩ := Option.map_eq_some_iff.1 read
  intro s member
  obtain ⟨c, among, listed⟩ := List.mem_flatMap.1 member
  exact isSpan_symbolsOf none c ((isOf_root? found).named among) s listed

end Symbols

namespace CFamily

theorem span_argumentOf (written : String) : (argumentOf written).span = none := by
  unfold argumentOf
  rfl

theorem isSpan_arguments (definition : String) :
    ∀ a ∈ arguments definition, ∀ s ∈ a.span, IsSpan text s := by
  unfold arguments
  split
  · exact List.forall_mem_nil _
  · intro a member
    obtain ⟨written, -, rfl⟩ := List.mem_map.1 member
    rw [span_argumentOf]
    exact fun _ absent => absurd absent (Option.not_mem_none _)

theorem isSpan_methodOf {s : Symbol} (own : IsSpan text s.span) (definition : String) :
    ∀ p ∈ (methodOf definition s).spans, IsSpan text p := by
  refine forall_methodSpans.2 ⟨?_, isSpan_arguments definition⟩
  rintro _ ⟨⟩
  exact own

theorem eachSpan_addSymbol (each : t.EachSpan (IsSpan text)) (lines : List String)
    (position : NamespacePosition) {s : Symbol} (own : IsSpan text s.span) :
    (addSymbol lines position t s).EachSpan (IsSpan text) := by
  have place : ∀ p ∈ some s.span, IsSpan text p := by
    rintro _ ⟨⟩
    exact own
  have held {f : EntityToken → EntityToken}
      (keeps : ∀ e, e.EachSpan (IsSpan text) → (f e).EachSpan (IsSpan text)) :
      (inContainer t s f).EachSpan (IsSpan text) := by
    unfold inContainer
    split
    · exact each.updateOpen keeps
    · exact each
  have entity (definition : String) :
      (entityOf t position definition s).EachSpan (IsSpan text) :=
    .of_bare place rfl
  unfold addSymbol
  dsimp only
  split
  · exact each.setSpace _
  · exact each.addImport place
  · exact each.addImport place
  · exact each.addEntity (entity _)
  · exact each.addEntity (entity _)
  · exact each.addEntity (entity _)
  · exact held (fun e inner => inner.addProperty place)
  · exact held (fun e inner => inner.addProperty place)
  · exact held (fun e inner => inner.addMethod (isSpan_methodOf own _))
  · exact held (fun e inner => inner.addMethod (isSpan_methodOf own _))
  · exact each.addVariable place
  · have method := isSpan_methodOf own (definitionLine lines s.span.start.line)
    generalize methodOf (definitionLine lines s.span.start.line) s = m at method ⊢
    exact each.addFunction (m := { m with isStatic := true }) method

theorem eachSpan_tree {symbols : List Symbol} (own : ∀ s ∈ symbols, IsSpan text s.span)
    (settings : LanguageSettings) : (tree text symbols settings).EachSpan (IsSpan text) :=
  TokenTree.EachSpan.empty.foldl (fun each s member => eachSpan_addSymbol each _ _ (own s member))

end CFamily

end CodeOutline.Analysis
