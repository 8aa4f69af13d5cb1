import CodeOutline.Proofs.Token.Collections
import CodeOutline.Token.Columns
import Mathlib.Data.List.Perm.Basic

/-!
Style declarations gathered under their selectors, at top level and inside media blocks. Values
that are given under keys stand, key by key in order of first use, with all that was given under
the key, in order. Both levels of the style sheet are kept in this one way.
-/

set_option autoImplicit false

namespace CodeOutline

section Keys

variable {α β : Type}

/-- The keys of values in order of first use. -/
def usedKeys (given : List (String × β)) : List String := firsts id (given.map (·.1))

/-- The values that are given under a key, in order. -/
def under (key : String) (given : List (String × β)) : List β :=
  given.filterMap (fun g => if g.1 = key then some g.2 else none)

theorem mem_usedKeys {key : String} {given : List (String × β)} :
    key ∈ usedKeys given ↔ key ∈ given.map (·.1) := by
  have plain : key ∈ (usedKeys given).map id ↔ key ∈ (given.map (·.1)).map id := mem_map_firsts
  rwa [List.map_id, List.map_id] at plain

theorem nodup_usedKeys (given : List (String × β)) : (usedKeys given).Nodup := by
  have plain : ((usedKeys given).map id).Nodup := nodup_map_firsts id (given.map (·.1))
  rwa [List.map_id] at plain

theorem usedKeys_concat (given : List (String × β)) (g : String × β) :
    usedKeys (given ++ [g]) =
      if g.1 ∈ usedKeys given then usedKeys given else usedKeys given ++ [g.1] := by
  have plain := firsts_concat id (given.map (·.1)) g.1
  simp only [List.map_id, id_eq] at plain
  simp only [mem_usedKeys]
  rw [usedKeys, List.map_append, List.map_singleton]
  exact plain

theorem under_cons (key : String) (g : String × β) (given : List (String × β)) :
    under key (g :: given) = (if g.1 = key then [g.2] else []) ++ under key given := by
  by_cases same : g.1 = key
  · simp [under, same]
  · simp [under, same]

theorem under_concat (key : String) (given : List (String × β)) (g : String × β) :
    under key (given ++ [g]) = under key given ++ (if g.1 = key then [g.2] else []) := by
  by_cases same : g.1 = key
  · simp [under, same]
  · simp [under, same]

theorem under_of_fresh {key : String} {given : List (String × β)}
    (fresh : key ∉ usedKeys given) : under key given = [] := by
  rw [under, List.filterMap_eq_nil_iff]
  intro g member
  refine if_neg (fun same => fresh ?_)
  exact mem_usedKeys.2 (List.mem_map.2 ⟨g, member, same⟩)

private theorem flatMap_ite_singleton {keys : List String} (distinct : keys.Nodup) {key : String}
    (member : key ∈ keys) (b : β) :
    (keys.flatMap (fun k => (if key = k then [b] else []).map (fun b => (k, b)))) = [(key, b)] := by
  induction keys with
  | nil => cases member
  | cons k keys ih =>
    obtain ⟨absent, distinct⟩ := List.nodup_cons.1 distinct
    rw [List.flatMap_cons]
    by_cases here : key = k
    · subst here
      have none : keys.flatMap
          (fun k => (if key = k then [b] else []).map (fun b => (k, b))) = [] := by
        rw [List.flatMap_eq_nil_iff]
        intro k inside
        have other : key ≠ k := fun same => absent (same ▸ inside)
        rw [if_neg other, List.map_nil]
      rw [none, if_pos rfl, List.map_singleton, List.append_nil]
    · have later : key ∈ keys := (List.mem_cons.1 member).resolve_left here
      rw [if_neg here, List.map_nil, List.nil_append, ih distinct later]

theorem regroup_perm {keys : List String} (distinct : keys.Nodup) {given : List (String × β)}
    (all : ∀ g ∈ given, g.1 ∈ keys) :
    (keys.flatMap (fun k => (under k given).map (fun b => (k, b)))).Perm given := by
  induction given with
  | nil =>
    have none : keys.flatMap (fun k => (under k ([] : List (String × β))).map (fun b => (k, b))) =
        [] := by
      rw [List.flatMap_eq_nil_iff]
      intro k _
      rfl
    rw [none]
  | cons g given ih =>
    have rest := ih (fun g' member => all g' (List.mem_cons_of_mem g member))
    have split : keys.flatMap (fun k => (under k (g :: given)).map (fun b => (k, b))) =
        keys.flatMap (fun k => (if g.1 = k then [g.2] else []).map (fun b => (k, b)) ++
          (under k given).map (fun b => (k, b))) := by
      simp only [under_cons, List.map_append]
    rw [split]
    refine (List.flatMap_append_perm keys _ _).symm.trans ?_
    rw [flatMap_ite_singleton distinct (all g List.mem_cons_self) g.2]
    exact rest.cons g

theorem usedKeys_perm (given : List (String × β)) :
    ((usedKeys given).flatMap (fun k => (under k given).map (fun b => (k, b)))).Perm given := by
  refine regroup_perm (nodup_usedKeys given) (fun g member => ?_)
  exact mem_usedKeys.2 (List.mem_map.2 ⟨g, member, rfl⟩)

namespace OrderedMap

private theorem upsertEntry_map {keys : List String} (distinct : keys.Nodup)
    (value : String → α) (key : String) (f : Option α → α) :
    upsertEntry key f (keys.map (fun k => (k, value k))) =
      if key ∈ keys then
        keys.map (fun k => (k, if k = key then f (some (value k)) else value k))
      else keys.map (fun k => (k, value k)) ++ [(key, f none)] := by
  induction keys with
  | nil => rfl
  | cons k keys ih =>
    obtain ⟨absent, distinct⟩ := List.nodup_cons.1 distinct
    rw [List.map_cons, upsertEntry]
    by_cases here : k = key
    · subst here
      have others : keys.map (fun j => (j, if j = k then f (some (value j)) else value j)) =
          keys.map (fun j => (j, value j)) := by
        refine List.map_congr_left (fun j inside => ?_)
        have other : j ≠ k := fun same => absent (same ▸ inside)
        rw [if_neg other]
      rw [if_pos (beq_self_eq_true k), if_pos List.mem_cons_self, List.map_cons, others,
        if_pos rfl]
    · have different : ¬(k == key) = true := by simpa using here
      rw [if_neg different, ih distinct]
      by_cases later : key ∈ keys
      · rw [if_pos later, if_pos (List.mem_cons_of_mem k later), List.map_cons, if_neg here]
      · have nowhere : key ∉ k :: keys := by
          rw [List.mem_cons, not_or]
          exact ⟨Ne.symm here, later⟩
        rw [if_neg later, if_neg nowhere, List.cons_append]

/-- Values added one after the other, each to what its key holds or else to a start, come to
one value for each key, made from what was given under it. -/
theorem entries_foldl_upsert (add : α → β → α) (start : α) (given : List (String × β)) :
    (given.foldl (fun m g => m.upsert g.1 (fun old => add (old.getD start) g.2)) empty).entries =
      (usedKeys given).map (fun k => (k, (under k given).foldl add start)) := by
  induction given using List.reverseRecOn with
  | nil => rfl
  | append_singleton given g ih =>
    have changed : ∀ k, (under k (given ++ [g])).foldl add start =
        if k = g.1 then add ((under k given).foldl add start) g.2
        else (under k given).foldl add start := by
      intro k
      rw [under_concat, List.foldl_append]
      by_cases same : g.1 = k
      · rw [if_pos same, if_pos same.symm, List.foldl_cons, List.foldl_nil]
      · rw [if_neg same, if_neg (Ne.symm same), List.foldl_nil]
    rw [List.foldl_append, List.foldl_cons, List.foldl_nil, entries_upsert, ih,
      upsertEntry_map (nodup_usedKeys given), usedKeys_concat]
    simp only [changed]
    by_cases known : g.1 ∈ usedKeys given
    · rw [if_pos known, if_pos known]
      rfl
    · have others : (usedKeys given).map (fun k => (k, if k = g.1 then
            add ((under k given).foldl add start) g.2 else (under k given).foldl add start)) =
          (usedKeys given).map (fun k => (k, (under k given).foldl add start)) := by
        refine List.map_congr_left (fun k inside => ?_)
        have other : k ≠ g.1 := fun same => known (same ▸ inside)
        rw [if_neg other]
      rw [if_neg known, if_neg known, List.map_append, others, List.map_singleton, if_pos rfl,
        under_of_fresh known]
      rfl

end OrderedMap

end Keys

/-! ## Selectors -/

/-- The selectors of a list of additions in order of first use, each with all declarations that
are given for it, in order. -/
def grouped (given : List (String × List VarToken)) : List (String × List VarToken) :=
  (usedKeys given).map (fun selector => (selector, (under selector given).flatten))

/-- Declarations, each with its selector. -/
def spread (groups : List (String × List VarToken)) : List (String × VarToken) :=
  groups.flatMap (fun g => g.2.map (fun d => (g.1, d)))

theorem spread_grouped_perm (given : List (String × List VarToken)) :
    (spread (grouped given)).Perm (spread given) := by
  have one (k : String) : (under k given).flatten.map (fun d => (k, d)) =
      ((under k given).map (fun ds => (k, ds))).flatMap (fun g => g.2.map (fun d => (g.1, d))) := by
    rw [List.flatMap_map, List.map_flatten, List.flatMap_def]
  have regrouped : spread (grouped given) =
      spread ((usedKeys given).flatMap (fun k => (under k given).map (fun ds => (k, ds)))) := by
    simp only [spread, grouped, List.flatMap_map, List.flatMap_assoc, one]
  rw [regrouped]
  exact (usedKeys_perm given).flatMap_right _

def selectorsOf (given : List (String × List VarToken)) : SelectorMap :=
  given.foldl (fun m g => m.extend g.1 g.2) .empty

def mediaOf (given : List (String × String × List VarToken)) : OrderedMap SelectorMap :=
  given.foldl (fun m g => m.upsert g.1 (fun old => (old.getD .empty).extend g.2.1 g.2.2)) .empty

theorem entries_selectorsOf (given : List (String × List VarToken)) :
    (selectorsOf given).entries = grouped given := by
  have run := OrderedMap.entries_foldl_upsert (fun old ds : List VarToken => old ++ ds) [] given
  have joined (lists : List (List VarToken)) : lists.foldl (fun old ds => old ++ ds) [] =
      lists.flatten := by
    have plain : lists.foldl (fun old ds => old ++ id ds) [] = [] ++ (lists.map id).flatten :=
      List.foldl_append_eq_append
    rwa [List.map_id, List.nil_append] at plain
  simp only [joined] at run
  exact run

/-! ## Places -/

section Places

variable (f : Span → Span)

theorem OrderedMap.map_upsert {α β : Type} {h : α → β} {g : Option α → α} {g' : Option β → β}
    (same : ∀ old, h (g old) = g' (old.map h)) (m : OrderedMap α) (key : String) :
    (m.upsert key g).map h = (m.map h).upsert key g' := by
  refine ext ?_
  show (upsertEntry key g m.entries).map _ = upsertEntry key g' (m.entries.map _)
  induction m.entries with
  | nil => simp [upsertEntry, same]
  | cons entry rest ih =>
    obtain ⟨k, a⟩ := entry
    rw [upsertEntry, List.map_cons, upsertEntry]
    by_cases here : (k == key) = true
    · simp [here, same]
    · rw [if_neg here, if_neg here, List.map_cons, ih]

def mapPlaces (g : String × List VarToken) : String × List VarToken :=
  (g.1, g.2.map (VarToken.mapSpan f))

theorem SelectorMap.mapSpan_extend (m : SelectorMap) (g : String × List VarToken) :
    (m.extend g.1 g.2).mapSpan f =
      (SelectorMap.mapSpan f m).extend (mapPlaces f g).1 (mapPlaces f g).2 := by
  refine OrderedMap.map_upsert (fun old => ?_) m g.1
  cases old <;> simp [mapPlaces]

theorem mapSpan_selectorsOf (given : List (String × List VarToken)) :
    (selectorsOf given).mapSpan f = selectorsOf (given.map (mapPlaces f)) := by
  induction given using List.reverseRecOn with
  | nil => rfl
  | append_singleton given g ih =>
    rw [selectorsOf, List.foldl_append, List.foldl_cons, List.foldl_nil, ← selectorsOf,
      SelectorMap.mapSpan_extend, ih, List.map_append, List.map_singleton]
    rw [selectorsOf, selectorsOf, List.foldl_append]
    rfl

theorem mapSpan_mediaOf (given : List (String × String × List VarToken)) :
    (mediaOf given).map (SelectorMap.mapSpan f) =
      mediaOf (given.map (fun g => (g.1, mapPlaces f g.2))) := by
  induction given using List.reverseRecOn with
  | nil => rfl
  | append_singleton given g ih =>
    have step : ((mediaOf given).upsert g.1 fun old =>
          (old.getD .empty).extend g.2.1 g.2.2).map (SelectorMap.mapSpan f) =
        ((mediaOf given).map (SelectorMap.mapSpan f)).upsert g.1 fun old =>
          (old.getD .empty).extend (mapPlaces f g.2).1 (mapPlaces f g.2).2 := by
      refine OrderedMap.map_upsert (fun old => ?_) _ _
      rw [SelectorMap.mapSpan_extend]
      cases old <;> rfl
    rw [mediaOf, List.foldl_append, List.foldl_cons, List.foldl_nil, ← mediaOf, step, ih,
      List.map_append, List.map_singleton]
    rw [mediaOf, mediaOf, List.foldl_append]
    rfl

end Places

/-- The trees differ at most in the places of their tokens. -/
def TokenTree.SameButPlaces (t t' : TokenTree) : Prop :=
  ∀ place : Span, t.mapSpan (fun _ => place) = t'.mapSpan (fun _ => place)

theorem TokenTree.sameButPlaces_styles {sets sets' : List (String × List VarToken)}
    {media media' : List (String × String × List VarToken)}
    (same : ∀ place : Span, sets.map (mapPlaces fun _ => place) =
      sets'.map (mapPlaces fun _ => place))
    (sameMedia : ∀ place : Span, media.map (fun g => (g.1, mapPlaces (fun _ => place) g.2)) =
      media'.map (fun g => (g.1, mapPlaces (fun _ => place) g.2))) :
    SameButPlaces { nodes := selectorsOf sets, media := mediaOf media }
      { nodes := selectorsOf sets', media := mediaOf media' } := by
  intro place
  have nodes : (selectorsOf sets).mapSpan (fun _ => place) =
      (selectorsOf sets').mapSpan (fun _ => place) := by
    rw [mapSpan_selectorsOf, same, mapSpan_selectorsOf]
  have blocks : (mediaOf media).map (SelectorMap.mapSpan fun _ => place) =
      (mediaOf media').map (SelectorMap.mapSpan fun _ => place) := by
    rw [mapSpan_mediaOf, sameMedia, mapSpan_mediaOf]
  simp only [mapSpan, nodes, blocks]

namespace TokenTree

open BuildStep

private theorem entries_nodes_build (steps : List BuildStep) :
    (build steps).nodes.entries = grouped (steps.filterMap declarations?) := by
  have run : (build steps).nodes = selectorsOf (steps.filterMap declarations?) :=
    build_foldl (fun t s => (step_changes t s).nodes) steps
  rw [run, entries_selectorsOf]

private theorem entries_media_build (steps : List BuildStep) :
    (build steps).media.entries = (usedKeys (steps.filterMap media?)).map
      (fun condition => (condition, selectorsOf (under condition (steps.filterMap media?)))) := by
  have run : (build steps).media = mediaOf (steps.filterMap media?) :=
    build_foldl (fun t s => (step_changes t s).media) steps
  rw [run]
  exact OrderedMap.entries_foldl_upsert
    (fun (m : SelectorMap) (g : String × List VarToken) => m.extend g.1 g.2) .empty _

/-- Declarations of media blocks, each with its condition and its selector. -/
def spreadMedia (given : List (String × String × List VarToken)) :
    List (String × String × VarToken) :=
  given.flatMap (fun (condition, g) => (spread [g]).map (fun d => (condition, d)))

private theorem spreadMedia_grouped_perm (given : List (String × String × List VarToken)) :
    ((usedKeys given).flatMap (fun condition =>
      (spread (grouped (under condition given))).map (fun d => (condition, d)))).Perm
      (spreadMedia given) := by
  have one (condition : String) : (spread (under condition given)).map (fun d => (condition, d)) =
      spreadMedia ((under condition given).map (fun g => (condition, g))) := by
    simp only [spread, spreadMedia, List.flatMap_map, List.map_flatMap, List.flatMap_cons,
      List.flatMap_nil, List.append_nil]
  have grouping (condition : String) :
      ((spread (grouped (under condition given))).map (fun d => (condition, d))).Perm
        (spreadMedia ((under condition given).map (fun g => (condition, g)))) := by
    rw [← one]
    exact (spread_grouped_perm _).map _
  refine (List.Perm.flatMap_left _ (fun condition _ => grouping condition)).trans ?_
  have regrouped := (usedKeys_perm given).flatMap_right
    (fun (condition, g) => (spread [g]).map (fun d => (condition, d)))
  rwa [List.flatMap_assoc] at regrouped

/-- The style sheet that additions in any order leave: at top level, and for each condition in
order of first use, the selectors in order of first use with all declarations given for them
there, in order. The declarations are those given, each with its condition and selector. -/
theorem build_groups_styles (steps : List BuildStep) :
    (build steps).nodes.entries = grouped (steps.filterMap declarations?) ∧
      (build steps).media.entries.map (fun (condition, m) => (condition, m.entries)) =
        (usedKeys (steps.filterMap media?)).map (fun condition =>
          (condition, grouped (under condition (steps.filterMap media?)))) ∧
      (spread (build steps).nodes.entries).Perm (spread (steps.filterMap declarations?)) ∧
      ((build steps).media.entries.flatMap (fun (condition, m) =>
          (spread m.entries).map (fun d => (condition, d)))).Perm
        (spreadMedia (steps.filterMap media?)) := by
  refine ⟨entries_nodes_build steps, ?media, ?kept, ?keptMedia⟩
  case media =>
    simp only [entries_media_build, List.map_map, Function.comp_def, entries_selectorsOf]
  case kept =>
    rw [entries_nodes_build]
    exact spread_grouped_perm _
  case keptMedia =>
    rw [entries_media_build, List.flatMap_map]
    simp only [entries_selectorsOf]
    exact spreadMedia_grouped_perm _

end TokenTree

end CodeOutline
