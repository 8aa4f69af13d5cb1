import CodeOutline.Proofs.Registry.Slots
import Mathlib.Data.List.Induction

/-!
Registries in use. After any calls each slot has the tree that its analyzer made last, in a
refresh or for a token tree, of a document that it was the first to claim. The settings of a
call need not be those that the registry was made from.
-/

set_option autoImplicit false

namespace CodeOutline.Registry

/-- What can be asked of a registry. -/
inductive Call
  | find (d : Document)
  | supports (d : Document)
  | analyze (d : Document) (c : Config)
  | refresh (d : Document) (c : Config)
  | tokenTree (d : Document) (c : Config)

/-- The registry behind a call. A refresh that fails gives no other one. -/
def after (r : Registry) : Call → Registry
  | .find _ | .supports _ | .analyze _ _ => r
  | .refresh d c =>
    match r.refresh d c with
    | .ok (_, r') => r'
    | .error _ => r
  | .tokenTree d c => (r.tokenTree d c).2

def run (r : Registry) (calls : List Call) : Registry := calls.foldl after r

/-- The slot that a call reports as refreshed, if there is one. -/
def Call.slot? (r : Registry) : Call → Option Nat
  | .refresh d c | .tokenTree d c => (r.refresh d c).toOption.map (·.1)
  | .find _ | .supports _ | .analyze _ _ => none

/-- The tree that a call makes for one of the analyzers. -/
def Call.made? (as : List Analyzer) (a : Analyzer) : Call → Option TokenTree
  | .refresh d c | .tokenTree d c =>
    if as.find? (fun a => a.claims d) = some a then (a.analyze d c).toOption else none
  | .find _ | .supports _ | .analyze _ _ => none

/-- The tree that was made last for an analyzer, empty if there was none. -/
def latest (as : List Analyzer) (calls : List Call) (a : Analyzer) : TokenTree :=
  (calls.reverse.findSome? (Call.made? as a)).getD .empty

private theorem latest_concat (as : List Analyzer) (calls : List Call) (call : Call)
    (a : Analyzer) :
    latest as (calls ++ [call]) a = (call.made? as a).getD (latest as calls a) := by
  unfold latest
  rw [List.reverse_append, List.reverse_singleton, List.singleton_append, List.findSome?_cons]
  cases call.made? as a <;> rfl

private theorem after_tokenTree (r : Registry) (d : Document) (c : Config) :
    r.after (.tokenTree d c) = r.after (.refresh d c) := by
  simp only [after, tokenTree]
  split
  · next refreshed => rw [refreshed]
  · next refused => rw [refused]
  · next refused =>
    rw [refused]
    split <;> rfl

private theorem after_of_slot?_eq_none (r : Registry) (call : Call)
    (unreported : call.slot? r = none) : r.after call = r := by
  have kept (d : Document) (c : Config) (none : (r.refresh d c).toOption = none) :
      r.after (.refresh d c) = r := by
    cases outcome : r.refresh d c with
    | ok made => simp [outcome, Except.toOption] at none
    | error f => rw [after, outcome]
  cases call with
  | find | supports | analyze => rfl
  | refresh d c => exact kept d c (Option.map_eq_none_iff.1 unreported)
  | tokenTree d c =>
    rw [after_tokenTree]
    exact kept d c (Option.map_eq_none_iff.1 unreported)

private theorem exists_of_slot? {r : Registry} {call : Call} {i : Nat}
    (reported : call.slot? r = some i) :
    ∃ d c r', (call = .refresh d c ∨ call = .tokenTree d c) ∧ r.refresh d c = .ok (i, r') ∧
      r.after call = r' := by
  have made (d : Document) (c : Config)
      (some : (r.refresh d c).toOption.map (·.1) = some i) :
      ∃ r', r.refresh d c = .ok (i, r') ∧ r.after (.refresh d c) = r' := by
    cases outcome : r.refresh d c with
    | ok made =>
      obtain ⟨j, r'⟩ := made
      obtain rfl : j = i := by simpa [outcome, Except.toOption] using some
      exact ⟨r', rfl, by rw [after, outcome]⟩
    | error f => simp [outcome, Except.toOption] at some
  cases call with
  | find | supports | analyze => cases reported
  | refresh d c =>
    obtain ⟨r', refreshed, left⟩ := made d c reported
    exact ⟨d, c, r', .inl rfl, refreshed, left⟩
  | tokenTree d c =>
    obtain ⟨r', refreshed, left⟩ := made d c reported
    exact ⟨d, c, r', .inr rfl, refreshed, (after_tokenTree r d c).trans left⟩

section Step

variable {as : List Analyzer} (trees : Analyzer → TokenTree)

private theorem refresh_cases (nodup : as.Nodup) (d : Document) (c : Config) :
    let r := holding as trees
    ((∀ a ∈ as, a.claims d = false) ∧ (∃ f, r.refresh d c = .error f) ∧
      r.tokenTree d c = (.empty, r)) ∨
    (∃ a i, as.find? (fun a => a.claims d) = some a ∧ as[i]? = some a ∧ r.find d = .ok i ∧
      r.analyze d c = a.analyze d c ∧
      ((∃ f, a.analyze d c = .error f ∧ r.refresh d c = .error f ∧
          r.tokenTree d c = (trees a, r)) ∨
        ∃ t, a.analyze d c = .ok t ∧
          r.refresh d c = .ok (i, holding as (Function.update trees a t)) ∧
          r.tokenTree d c = (t, holding as (Function.update trees a t)))) := by
  intro r
  cases claimed : as.find? (fun a => a.claims d) with
  | none =>
    refine .inl ⟨by simpa using claimed, ⟨.unsupportedLanguage d.language, ?_⟩,
      tokenTree_holding_of_none trees claimed c⟩
    simp only [r, refresh, find_holding_of_none trees claimed, bind, Except.bind]
  | some a =>
    obtain ⟨i, found, here⟩ := find_holding_of_some trees claimed
    refine .inr ⟨a, i, rfl, here, found, analyze_holding trees claimed c, ?_⟩
    cases answer : a.analyze d c with
    | error f =>
      exact .inl ⟨f, rfl, refresh_holding_of_error trees claimed answer,
        tokenTree_holding_of_error trees claimed answer⟩
    | ok t =>
      obtain ⟨j, there, refreshed⟩ := refresh_holding_of_ok trees nodup claimed answer
      have bound := (List.getElem?_eq_some_iff.1 here).1
      obtain rfl : i = j := (List.getElem?_inj bound nodup).1 (here.trans there.symm)
      exact .inr ⟨t, rfl, refreshed, tokenTree_holding_of_ok trees nodup claimed answer⟩

private theorem made_of_unread {d : Document} {c : Config}
    (unread : ∀ a, as.find? (fun a => a.claims d) = some a → (a.analyze d c).toOption = none) :
    (fun b => ((Call.refresh d c).made? as b).getD (trees b)) = trees := by
  funext b
  simp only [Call.made?]
  split
  · next claimed => rw [unread b claimed, Option.getD_none]
  · rfl

private theorem made_of_read {d : Document} {c : Config} {a : Analyzer} {t : TokenTree}
    (claimed : as.find? (fun a => a.claims d) = some a) (read : a.analyze d c = .ok t) :
    (fun b => ((Call.refresh d c).made? as b).getD (trees b)) = Function.update trees a t := by
  funext b
  by_cases mine : b = a
  · subst mine
    simp [Call.made?, claimed, read, Except.toOption]
  · have other : as.find? (fun a => a.claims d) ≠ some b := by
      rw [claimed]
      exact fun same => mine (Option.some.inj same).symm
    simp [Call.made?, other, Function.update_of_ne mine]

private theorem after_refresh_holding (nodup : as.Nodup) (d : Document) (c : Config) :
    (holding as trees).after (.refresh d c) =
      holding as (fun a => ((Call.refresh d c).made? as a).getD (trees a)) := by
  rcases refresh_cases trees nodup d c with
    ⟨unclaimed, ⟨f, refused⟩, -⟩ |
    ⟨a, i, claimed, -, -, -, ⟨f, failed, refused, -⟩ | ⟨t, read, made, -⟩⟩
  · rw [made_of_unread trees, after, refused]
    intro a claimed
    have takes := List.find?_some claimed
    simp [unclaimed a (List.mem_of_find?_eq_some claimed)] at takes
  · rw [made_of_unread trees, after, refused]
    intro b other
    obtain rfl := Option.some.inj (claimed.symm.trans other)
    rw [failed, Except.toOption]
  · rw [made_of_read trees claimed read, after, made]

private theorem after_holding (nodup : as.Nodup) (call : Call) :
    (holding as trees).after call = holding as (fun a => (call.made? as a).getD (trees a)) := by
  cases call with
  | find | supports | analyze => rfl
  | refresh d c => exact after_refresh_holding trees nodup d c
  | tokenTree d c =>
    rw [after_tokenTree]
    exact after_refresh_holding trees nodup d c

end Step

private theorem run_holding (c : Config) (calls : List Call) :
    (ofConfig c).run calls = holding c.analyzers (latest c.analyzers calls) := by
  induction calls using List.reverseRecOn with
  | nil => exact ofConfig_eq_holding c
  | append_singleton calls call ih =>
    have step : (ofConfig c).run (calls ++ [call]) = ((ofConfig c).run calls).after call := by
      simp only [run, List.foldl_append, List.foldl_cons, List.foldl_nil]
    have changed : latest c.analyzers (calls ++ [call]) = fun a =>
        (call.made? c.analyzers a).getD (latest c.analyzers calls a) :=
      funext (latest_concat c.analyzers calls call)
    rw [step, ih, after_holding _ c.analyzers_nodup, changed]

private theorem getElem?_holding_update {as : List Analyzer} (nodup : as.Nodup)
    (trees : Analyzer → TokenTree) {a : Analyzer} {i j : Nat} (here : as[i]? = some a)
    (elsewhere : j ≠ i) (t : TokenTree) :
    (holding as (Function.update trees a t))[j]? = (holding as trees)[j]? := by
  cases there : as[j]? with
  | none => simp [holding, there]
  | some b =>
    have other : b ≠ a := by
      rintro rfl
      have bound := (List.getElem?_eq_some_iff.1 there).1
      exact elsewhere ((List.getElem?_inj bound nodup).1 (there.trans here.symm))
    rw [getElem?_holding _ there, getElem?_holding _ there, Function.update_of_ne other]

/-- The slots of a registry after any calls: each has the latest tree that was made for it. A
call that reports no slot changes none, and one that reports a slot puts the analysis of its
document there and changes no other. A token tree is what the slot then has, and empty for a
document that no analyzer claims. -/
theorem run_slots (c : Config) (calls : List Call) :
    let r := (ofConfig c).run calls
    r = c.analyzers.map (fun a => ⟨a, latest c.analyzers calls a⟩) ∧
    (∀ call, call.slot? r = none → r.after call = r) ∧
    (∀ call i, call.slot? r = some i →
      ∃ d c' t, (call = .refresh d c' ∨ call = .tokenTree d c') ∧ r.find d = .ok i ∧
        r.analyze d c' = .ok t ∧ (r.after call).tree? i = some t ∧
        ∀ j, j ≠ i → (r.after call)[j]? = r[j]?) ∧
    ∀ d c', (∃ i, r.find d = .ok i ∧
        (r.after (.tokenTree d c')).tree? i = some (r.tokenTree d c').1) ∨
      ((∀ a ∈ c.analyzers, a.claims d = false) ∧ (r.tokenTree d c').1 = .empty) := by
  intro r
  have nodup := c.analyzers_nodup
  have held : r = holding c.analyzers (latest c.analyzers calls) := run_holding c calls
  refine ⟨held, ?_, ?_, ?_⟩
  · intro call unreported
    exact after_of_slot?_eq_none r call unreported
  · intro call i reported
    obtain ⟨d, c', r', asked, refreshed, left⟩ := exists_of_slot? reported
    rw [held] at refreshed
    rcases refresh_cases (latest c.analyzers calls) nodup d c' with
      ⟨-, ⟨f, refused⟩, -⟩ | ⟨a, k, -, here, found, answer, ⟨f, -, refused, -⟩ | ⟨t, read, made, -⟩⟩
    · cases refused.symm.trans refreshed
    · cases refused.symm.trans refreshed
    · obtain ⟨rfl, rfl⟩ := Prod.mk.inj (Except.ok.inj (made.symm.trans refreshed))
      refine ⟨d, c', t, asked, held ▸ found, held ▸ answer.trans read, ?_, ?_⟩
      · rw [left, tree?, getElem?_holding _ here, Option.map_some, Function.update_self]
      · intro j elsewhere
        rw [left, held]
        exact getElem?_holding_update nodup _ here elsewhere t
  · intro d c'
    rw [held]
    rcases refresh_cases (latest c.analyzers calls) nodup d c' with
      ⟨unclaimed, -, empty⟩ |
      ⟨a, i, -, here, found, -, ⟨f, -, -, kept⟩ | ⟨t, -, -, made⟩⟩
    · exact .inr ⟨unclaimed, by rw [empty]⟩
    · refine .inl ⟨i, found, ?_⟩
      simp only [after, kept, tree?, getElem?_holding _ here, Option.map_some]
    · refine .inl ⟨i, found, ?_⟩
      simp only [after, made, tree?, getElem?_holding _ here, Option.map_some,
        Function.update_self]

end CodeOutline.Registry
