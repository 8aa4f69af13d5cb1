import CodeOutline.Analysis.Php
import CodeOutline.Proofs.Syntax.Grammars
import CodeOutline.Proofs.Token.Spans

/-!
The places in outlines of PHP documents: each is that of a node, so it goes from one point of the
text to another.
-/

set_option autoImplicit false

namespace CodeOutline.Analysis.Php

open Syntax (Node)
open Text (IsSpan)

variable {text : String} {t : TokenTree} {e : EntityToken} {n : Node}

theorem isSpan_constants (here : n.IsOf text.toList) :
    ∀ c ∈ constants t n, ∀ s ∈ c.span, IsSpan text s := by
  intro c member
  obtain ⟨element, among, shown⟩ := List.mem_filterMap.1 member
  have inner : element.IsOf text.toList := here.ofKind among
  split at shown
  · cases shown
  · next name rest named =>
    cases shown
    exact (inner.named (named ▸ List.mem_cons_self)).isSpan

theorem isSpan_properties (here : n.IsOf text.toList) :
    ∀ p ∈ properties t n, ∀ s ∈ p.span, IsSpan text s := by
  intro p member
  unfold properties at member
  dsimp only at member
  split at member
  · cases member
  · next elements =>
    obtain ⟨element, among, shown⟩ := List.mem_filterMap.1 member
    obtain ⟨name, found, rfl⟩ := Option.map_eq_some_iff.1 shown
    have inner : element.IsOf text.toList := here.ofKind among
    exact (inner.first? found).isSpan

theorem isSpan_parameter? (here : n.IsOf text.toList) :
    ∀ a ∈ parameter? t n, ∀ s ∈ a.span, IsSpan text s := by
  intro a shown
  unfold parameter? at shown
  split at shown
  · cases shown
  · obtain ⟨name, found, rfl⟩ := Option.map_eq_some_iff.1 shown
    rw [Option.orElse_eq_or] at found
    rcases Option.or_eq_some_iff.1 found with role | ⟨-, first⟩
    · exact (here.child? role).isSpan
    · exact (here.first? first).isSpan

theorem isSpan_callable (here : n.IsOf text.toList) (isFree : Bool) :
    ∀ s ∈ (callable t n isFree).spans, IsSpan text s := by
  refine forall_methodSpans.2 ⟨Node.IsOf.isSpan_map (fun c found => here.child? found), ?_⟩
  exact here.isSpan_arguments (fun p => isSpan_parameter?)

theorem eachSpan_addMember (each : e.EachSpan (IsSpan text)) (here : n.IsOf text.toList) :
    (addMember t e n).EachSpan (IsSpan text) := by
  unfold addMember
  split
  · exact each.foldl (fun each c member => each.addConstant (isSpan_constants here c member))
  · exact each.foldl (fun each p member => each.addProperty (isSpan_properties here p member))
  · exact each.addMethod (isSpan_callable here false)
  · refine each.foldl (fun each u member => each.addTrait ?_)
    have inner := here.named (List.mem_filter.1 member).1
    exact .of_bare inner.isSpan rfl
  · exact each

theorem eachSpan_addClause (each : t.EachSpan (IsSpan text)) (fore : Option String)
    (here : n.IsOf text.toList) : (addClause fore t n).EachSpan (IsSpan text) := by
  unfold addClause
  dsimp only
  split
  · exact each
  · next name found =>
    have among : name ∈ n.children := (List.takeWhile_subset _) (List.mem_of_find?_eq_some found)
    exact each.addImport (here.child among).isSpan

theorem eachSpan_addUse (each : t.EachSpan (IsSpan text)) (here : n.IsOf text.toList) :
    (addUse t n).EachSpan (IsSpan text) := by
  refine each.foldl (fun each child member => ?_)
  have inner := here.named member
  split
  · exact eachSpan_addClause each _ inner
  · refine each.foldl (fun each clause among => eachSpan_addClause each _ ?_)
    exact inner.named (List.mem_filter.1 among).1
  · exact each

theorem eachSpan_addDeclare (each : t.EachSpan (IsSpan text)) (n : Node) :
    (addDeclare t n).EachSpan (IsSpan text) := by
  unfold addDeclare
  split
  · split
    · split <;> exact each.setStrict _
    · exact each
  · exact each

theorem eachSpan_addAssignment (each : t.EachSpan (IsSpan text)) (here : n.IsOf text.toList) :
    (addAssignment t n).EachSpan (IsSpan text) := by
  unfold addAssignment
  split
  · exact each
  · next assign found =>
    split
    · next left right target _ =>
      split
      · exact each.addVariable ((here.first? found).child? target).isSpan
      · exact each
    · exact each

variable {w : Walk} (position : NamespacePosition) (each : w.tree.EachSpan (IsSpan text))

include each

theorem eachSpan_addEntity (kind : EntityKind) (here : n.IsOf text.toList) :
    (addEntity position w kind n).tree.EachSpan (IsSpan text) := by
  unfold addEntity
  split
  · exact each
  · next name named =>
    refine each.addEntity ?_
    have bare := (here.child? named).isSpan
    exact EntityToken.EachSpan.foldl (.of_bare bare rfl)
      (fun each c member => eachSpan_addMember each (here.named_under "body" c member))

theorem eachSpan_enterSpace (n : Node) : (enterSpace w n).tree.EachSpan (IsSpan text) := by
  unfold enterSpace
  dsimp only
  split
  · split
    · exact each.setSpace _
    · exact each
  · exact each

omit each in
mutual

theorem eachSpan_visit : (w : Walk) → w.tree.EachSpan (IsSpan text) → (n : Node) →
    n.IsOf text.toList → (visit position w n).tree.EachSpan (IsSpan text)
  | w, each, ⟨kind, isNamed, isExtra, field, start, stop, tail, children⟩, here => by
    have below : ∀ c ∈ children, c.IsOf text.toList := fun c member => here.child member
    unfold visit
    dsimp only
    split
    · have inner := eachSpan_enterSpace each
        ⟨"namespace_definition", isNamed, isExtra, field, start, stop, tail, children⟩
      split
      · exact eachSpan_visitAll _ inner children below
      · exact inner
    · exact eachSpan_addUse each here
    · exact eachSpan_addDeclare each _
    · exact eachSpan_addEntity position each _ here
    · exact eachSpan_addEntity position each _ here
    · exact eachSpan_addEntity position each _ here
    · exact each.addFunction (isSpan_callable here true)
    · exact eachSpan_addAssignment each here
    · exact eachSpan_visitAll w each children below
    · exact each

theorem eachSpan_visitAll : (w : Walk) → w.tree.EachSpan (IsSpan text) → (ns : List Node) →
    (∀ n ∈ ns, n.IsOf text.toList) → (visitAll position w ns).tree.EachSpan (IsSpan text)
  | _, each, [], _ => by rwa [visitAll]
  | w, each, n :: rest, here => by
    obtain ⟨first, later⟩ := List.forall_mem_cons.1 here
    rw [visitAll]
    exact eachSpan_visitAll _ (eachSpan_visit w each n first) rest later

end

omit each in
theorem eachSpan_tree? {settings : LanguageSettings} (read : tree? text settings = some t) :
    t.EachSpan (IsSpan text) := by
  obtain ⟨root, found, rfl⟩ := Option.map_eq_some_iff.1 read
  have here := Grammar.Php.isOf_of_read? found
  exact eachSpan_visitAll _ _ .empty _ (fun n member => here.named member)

end CodeOutline.Analysis.Php
