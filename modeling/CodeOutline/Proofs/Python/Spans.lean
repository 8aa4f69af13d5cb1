import CodeOutline.Analysis.Python
import CodeOutline.Proofs.Syntax.Grammars
import CodeOutline.Proofs.Text.Trimming
import CodeOutline.Proofs.Token.Spans

/-!
The places in outlines of Python documents. Definitions stand where their nodes do. Imports are told
from lines; the name that is looked for is a part of the line as it is.
-/

set_option autoImplicit false

namespace CodeOutline.Analysis.Python

open Syntax (Node)
open Text (IsSpan)

variable {text : String} {t : TokenTree} {e : EntityToken} {n : Node}

/-! ## Definitions -/

theorem isSpan_parameter? (here : n.IsOf text.toList) :
    ∀ a ∈ parameter? n, ∀ s ∈ a.span, IsSpan text s := by
  intro a shown
  unfold parameter? at shown
  dsimp only at shown
  split at shown
  · cases shown
    exact here.isSpan
  · cases shown
    exact here.isSpan
  · cases shown
    exact here.isSpan
  · obtain ⟨inner, -, rfl⟩ := Option.map_eq_some_iff.1 shown
    exact here.isSpan
  · obtain ⟨name, -, rfl⟩ := Option.map_eq_some_iff.1 shown
    exact here.isSpan
  · obtain ⟨name, -, rfl⟩ := Option.map_eq_some_iff.1 shown
    exact here.isSpan
  · cases shown

theorem withoutReceiver_subset (arguments : List VarToken) :
    withoutReceiver arguments ⊆ arguments := by
  unfold withoutReceiver
  split
  · split
    · exact List.subset_cons_self _ _
    · exact List.Subset.refl _
  · exact List.Subset.refl _

theorem isSpan_callable? (here : n.IsOf text.toList) (decorators : List String)
    (isMethod : Bool) : ∀ m ∈ callable? n decorators isMethod, ∀ s ∈ m.spans, IsSpan text s := by
  intro m shown
  obtain ⟨name, found, rfl⟩ := Option.map_eq_some_iff.1 shown
  refine forall_methodSpans.2 ⟨(here.child? found).isSpan, ?_⟩
  have all := here.isSpan_arguments (fun p => isSpan_parameter?)
  dsimp only
  split
  · exact fun a member => all a (withoutReceiver_subset _ member)
  · exact all

theorem isOf_undecorated (here : n.IsOf text.toList) : (undecorated n).2.IsOf text.toList := by
  unfold undecorated
  split
  · cases found : n.child? "definition" with
    | none => exact here
    | some definition => exact here.child? found
  · exact here

theorem isSpan_assignments (here : n.IsOf text.toList) :
    ∀ v ∈ assignments n, ∀ s ∈ v.span, IsSpan text s := by
  intro v member
  obtain ⟨assign, among, shown⟩ := List.mem_filterMap.1 member
  split at shown
  · next left found =>
    split at shown
    · cases shown
      exact ((here.ofKind among).child? found).isSpan
    · cases shown
  · cases shown

theorem isSpan_selfProperty? (here : n.IsOf text.toList) :
    ∀ p ∈ selfProperty? n, ∀ s ∈ p.span, IsSpan text s := by
  intro p shown
  obtain ⟨left, target, shown⟩ := Option.bind_eq_some_iff.1 shown
  obtain ⟨object, -, shown⟩ := Option.bind_eq_some_iff.1 shown
  obtain ⟨name, found, shown⟩ := Option.bind_eq_some_iff.1 shown
  dsimp only at shown
  split at shown
  · cases shown
    exact ((here.child? target).child? found).isSpan
  · cases shown

mutual

theorem isSpan_selfProperties : (n : Node) → n.IsOf text.toList →
    ∀ p ∈ selfProperties n, ∀ s ∈ p.span, IsSpan text s
  | ⟨kind, isNamed, isExtra, field, start, stop, tail, children⟩, here => by
    have below := isSpan_selfPropertiesIn children (fun c member => here.child member)
    unfold selfProperties
    dsimp only
    split
    · exact List.forall_mem_nil _
    · refine List.forall_mem_append.2 ⟨?_, below⟩
      split
      · exact fun p member => isSpan_selfProperty? here p (Option.mem_toList.1 member)
      · exact List.forall_mem_nil _

theorem isSpan_selfPropertiesIn : (ns : List Node) → (∀ n ∈ ns, n.IsOf text.toList) →
    ∀ p ∈ selfPropertiesIn ns, ∀ s ∈ p.span, IsSpan text s
  | [], _ => by
    rw [selfPropertiesIn]
    exact List.forall_mem_nil _
  | n :: rest, here => by
    obtain ⟨first, later⟩ := List.forall_mem_cons.1 here
    rw [selfPropertiesIn]
    exact List.forall_mem_append.2
      ⟨isSpan_selfProperties n first, isSpan_selfPropertiesIn rest later⟩

end

theorem eachSpan_addMember (each : e.EachSpan (IsSpan text)) (here : n.IsOf text.toList) :
    (addMember e n).EachSpan (IsSpan text) := by
  have inner := isOf_undecorated here
  unfold addMember
  split
  next decorators definition same =>
  rw [same] at inner
  split
  · split
    · next method d shown _ =>
      exact each.addAccessor (forall_methodSpans.1 (isSpan_callable? inner _ _ method shown)).1
    · next method shown _ => exact each.addMethod (isSpan_callable? inner _ _ method shown)
    · exact each
  · exact each.foldl (fun each v member => each.addProperty (isSpan_assignments inner v member))
  · exact each

theorem eachSpan_class? (here : n.IsOf text.toList) :
    ∀ e ∈ class? n, e.EachSpan (IsSpan text) := by
  intro e shown
  obtain ⟨name, found, rfl⟩ := Option.map_eq_some_iff.1 shown
  have bare := (here.child? found).isSpan
  dsimp only
  split
  · exact .of_bare bare rfl
  · next body inside =>
    have block := here.child? inside
    refine EntityToken.EachSpan.foldl (EntityToken.EachSpan.foldl (.of_bare bare rfl)
      (fun each c member => eachSpan_addMember each (block.named member))) ?_
    exact fun each p member => each.addProperty
      (isSpan_selfPropertiesIn body.children (fun c among => block.child among) p member)

/-! ## Imports -/

theorem cut?_inside {s mark before after : String} (cut : cut? s mark = some (before, after)) :
    before.toList <:+: s.toList ∧ after.toList <:+: s.toList := by
  obtain ⟨⟨front, back⟩, found, same⟩ := Option.map_eq_some_iff.1 cut
  obtain ⟨rfl, rfl⟩ := Prod.mk.inj same
  rw [String.toList_ofList, String.toList_ofList, ← Text.append_of_cutFirst? found]
  refine ⟨?_, (List.suffix_append _ _).isInfix⟩
  rw [List.append_assoc]
  exact (List.prefix_append _ _).isInfix

theorem trim_inside (s : String) : (Text.trim s).toList <:+: s.toList := by
  rw [Text.trim, String.toList_ofList]
  exact Text.trimChars_inside _

theorem afterStart?_inside {start s rest : String} (found : Text.afterStart? start s = some rest) :
    rest.toList <:+: s.toList := by
  obtain ⟨behind, drop, rfl⟩ := Option.map_eq_some_iff.1 found
  rw [String.toList_ofList, ← Syntax.Scan.append_of_dropStart? drop]
  exact (List.suffix_append _ _).isInfix

theorem listed_inside {s part : String} (member : part ∈ listed s) : part.toList <:+: s.toList := by
  obtain ⟨piece, among, rfl⟩ := List.mem_map.1 (List.mem_filter.1 member).1
  obtain ⟨cs, inside, rfl⟩ := List.mem_map.1 among
  have within := trim_inside (String.ofList cs)
  rw [String.toList_ofList] at within
  exact within.trans (Text.infix_of_mem_splitChars inside)

theorem plainImport_inside (number : Nat) (line part : String) :
    ∃ name : String, name.toList <:+: part.toList ∧
      (plainImport number line part).span = some (Text.placeInLine number line name) := by
  unfold plainImport
  cases cut : cut? part " as " with
  | none => exact ⟨part, List.infix_refl _, rfl⟩
  | some parts => exact ⟨Text.trim parts.1, (trim_inside parts.1).trans (cut?_inside cut).1, rfl⟩

theorem fromImport_span (number : Nat) (line source names : String) :
    (fromImport number line source names).span =
      some (Text.placeInLine number line (Text.trim source)) := by
  unfold fromImport
  dsimp only
  split <;> rfl

theorem lineImports_inside {number : Nat} {line : String} {i : ImportToken}
    (member : i ∈ lineImports number line) :
    ∃ name : String, name.toList <:+: line.toList ∧
      i.span = some (Text.placeInLine number line name) := by
  unfold lineImports at member
  dsimp only at member
  have trimmed := trim_inside line
  split at member
  · cases member
  · split at member
    · next rest word =>
      split at member
      · next source names cut =>
        have same : i = fromImport number line source names := List.mem_singleton.1 member
        have own : (Text.trim source).toList <:+: line.toList :=
          (trim_inside source).trans ((cut?_inside cut).1.trans
            ((afterStart?_inside word).trans trimmed))
        refine ⟨Text.trim source, own, ?_⟩
        rw [same, fromImport_span]
      · cases member
    · split at member
      · next rest word =>
        obtain ⟨part, among, rfl⟩ := List.mem_map.1 member
        have own : part.toList <:+: line.toList :=
          (listed_inside among).trans ((afterStart?_inside word).trans trimmed)
        obtain ⟨name, inside, span⟩ := plainImport_inside number line part
        exact ⟨name, inside.trans own, span⟩
      · cases member

theorem isSpan_recoveredImports (text : String) (limit : Option Nat) :
    ∀ i ∈ recoveredImports text limit, ∀ s ∈ i.span, IsSpan text s := by
  intro i member
  obtain ⟨⟨line, number⟩, among, shown⟩ := List.mem_flatMap.1 member
  have there : (Text.lines text)[number]? = some line := by
    have place := List.mem_zipIdx_iff_getElem?.1 among
    cases limit with
    | none => exact place
    | some limit =>
      rw [List.getElem?_take] at place
      split at place
      · exact place
      · cases place
  obtain ⟨name, inside, span⟩ := lineImports_inside shown
  rw [span]
  rintro s ⟨⟩
  exact (Text.standsAt_placeInLine there inside).isSpan

theorem eachSpan_addStatement (each : t.EachSpan (IsSpan text)) (here : n.IsOf text.toList) :
    (addStatement t n).EachSpan (IsSpan text) := by
  have inner := isOf_undecorated here
  unfold addStatement
  split
  next decorators definition same =>
  rw [same] at inner
  split
  · split
    · next e shown => exact each.addEntity (eachSpan_class? inner e shown)
    · exact each
  · split
    · next f shown => exact each.addFunction (isSpan_callable? inner _ _ f shown)
    · exact each
  · exact each.foldl (fun each v member => each.addVariable (isSpan_assignments inner v member))
  · exact each

theorem eachSpan_tree? (read : tree? text = some t) : t.EachSpan (IsSpan text) := by
  obtain ⟨root, found, rfl⟩ := Option.map_eq_some_iff.1 read
  have here := Grammar.Python.isOf_of_read? found
  refine TokenTree.EachSpan.foldl (TokenTree.EachSpan.empty.foldl (fun each i member => ?_))
    (fun each n member => eachSpan_addStatement each (here.named member))
  exact each.addImport (isSpan_recoveredImports text _ i member)

end CodeOutline.Analysis.Python
