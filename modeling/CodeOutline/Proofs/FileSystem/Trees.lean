import CodeOutline.Proofs.FileSystem.Changes
import CodeOutline.Proofs.FileSystem.Relative
import Mathlib.Data.List.Induction
import Mathlib.Data.List.Nodup

/-!
Directory trees, and the files that are found below a directory. In a tree each entry has one
location, in a directory and under a name that leads there. A walk from a directory meets each
file below it once, under the path that its names spell, unless one of the names is passed over.
-/

set_option autoImplicit false

namespace CodeOutline.FileSystem

/-- What is there makes up a tree of directories and files: each thing is at one location, in a
directory and under a name. -/
structure IsTree (fs : FileSystem) : Prop where
  once : (fs.entries.map (·.1)).Nodup
  named : ∀ entry ∈ fs.entries, entry.1 ≠ [] ∧ ∀ name ∈ entry.1.getLast?, Path.IsName name
  held : ∀ entry ∈ fs.entries, fs.at? entry.1.dropLast = some .directory

variable {fs : FileSystem} {l below : Location} {e : Entry} {name : RawText}

theorem mem_of_at? (filled : l ≠ []) (there : fs.at? l = some e) : (l, e) ∈ fs.entries := by
  rw [at?_of_ne_nil _ filled] at there
  obtain ⟨before, after, parts, -⟩ := List.lookup_eq_some_iff.1 there
  exact parts ▸ List.mem_append_right _ List.mem_cons_self

namespace IsTree

theorem name_of_at? (tree : fs.IsTree) (there : fs.at? (l ++ [name]) = some e) :
    Path.IsName name := (tree.named _ (mem_of_at? (by simp) there)).2 name (by simp)

theorem directory_of_at? (tree : fs.IsTree) (there : fs.at? (l ++ [name]) = some e) :
    fs.at? l = some .directory := by
  simpa using tree.held _ (mem_of_at? (by simp) there)

theorem directory_above (tree : fs.IsTree) (there : fs.at? (l ++ below) = some e)
    (several : below ≠ []) : fs.at? l = some .directory := by
  induction below using List.reverseRecOn generalizing e with
  | nil => exact absurd rfl several
  | append_singleton below name ih =>
    rw [← List.append_assoc] at there
    have directory := tree.directory_of_at? there
    cases below with
    | nil => rwa [List.append_nil] at directory
    | cons first below => exact ih directory (List.cons_ne_nil _ _)

theorem names_below (tree : fs.IsTree) (there : fs.at? (l ++ below) = some e) :
    ∀ name ∈ below, Path.IsName name := by
  induction below using List.reverseRecOn generalizing e with
  | nil => simp
  | append_singleton below name ih =>
    rw [← List.append_assoc] at there
    intro other member
    rcases List.mem_append.1 member with before | last
    · exact ih (tree.directory_of_at? there) other before
    · exact List.mem_singleton.1 last ▸ tree.name_of_at? there

end IsTree

/-! Names in a directory -/

private def nameIn (l other : Location) : Option RawText :=
  if other.dropLast = l then other.getLast? else none

private theorem nameIn_eq_some_iff {other : Location} :
    nameIn l other = some name ↔ other = l ++ [name] := by
  unfold nameIn
  rcases other.eq_nil_or_concat with rfl | ⟨before, last, rfl⟩
  · simp
  · by_cases inside : before = l
    · simp [inside]
    · simp [inside]

private theorem names_eq (fs : FileSystem) (l : Location) :
    fs.names l = (fs.entries.map (·.1)).filterMap (nameIn l) := by
  rw [names, List.filterMap_map]
  congr 1
  funext entry
  rw [Function.comp_apply, nameIn]
  rcases entry.1.eq_nil_or_concat with root | ⟨before, last, other⟩
  · simp [root]
  · simp [other]

theorem mem_names_iff : name ∈ fs.names l ↔ (fs.at? (l ++ [name])).isSome = true := by
  rw [at?_of_ne_nil _ (by simp), List.lookup_isSome_iff, names_eq, List.mem_filterMap]
  simp only [nameIn_eq_some_iff, exists_eq_right, List.mem_map, beq_iff_eq]
  exact exists_congr fun entry => and_congr_right' eq_comm

theorem IsTree.nodup_names (tree : fs.IsTree) (l : Location) : (fs.names l).Nodup := by
  rw [names_eq]
  refine tree.once.filterMap ?_
  intro other other' name here here'
  exact (nameIn_eq_some_iff.1 here).trans (nameIn_eq_some_iff.1 here').symm

/-! Walks -/

def filesUnder (fs : FileSystem) (isWanted : RawText → Bool) (levels : Nat) (l : Location)
    (path name : RawText) : List RawText :=
  match fs.at? (l ++ [name]) with
  | some (.file _) => [Path.joinRaw path name]
  | some .directory => fs.filesTo isWanted levels (l ++ [name]) (Path.joinRaw path name)
  | none => []

section Walks

variable {isWanted : RawText → Bool} {levels : Nat} {path file : RawText}

theorem filesTo_succ : fs.filesTo isWanted (levels + 1) l path =
    ((fs.names l).filter isWanted).flatMap (fs.filesUnder isWanted levels l path) := rfl

theorem mem_filesUnder_iff : file ∈ fs.filesUnder isWanted levels l path name ↔
    (∃ content, fs.at? (l ++ [name]) = some (.file content) ∧ file = Path.joinRaw path name) ∨
      fs.at? (l ++ [name]) = some .directory ∧
        file ∈ fs.filesTo isWanted levels (l ++ [name]) (Path.joinRaw path name) := by
  unfold filesUnder
  split
  · next content here => simp [here]
  · next here => simp [here]
  · next here => simp [here]

theorem IsTree.mem_filesTo_iff (tree : fs.IsTree) :
    file ∈ fs.filesTo isWanted levels l path ↔
      ∃ below content, fs.at? (l ++ below) = some (.file content) ∧ below ≠ [] ∧
        below.length ≤ levels ∧ (∀ name ∈ below, isWanted name = true) ∧
        file = below.foldl Path.joinRaw path := by
  induction levels generalizing l path with
  | zero =>
    constructor
    · intro member
      cases member
    · rintro ⟨below, -, -, several, short, -⟩
      exact absurd (List.length_eq_zero_iff.1 (Nat.le_zero.1 short)) several
  | succ levels ih =>
    rw [filesTo_succ, List.mem_flatMap]
    constructor
    · rintro ⟨name, member, found⟩
      have wanted := (List.mem_filter.1 member).2
      rcases mem_filesUnder_iff.1 found with ⟨content, here, rfl⟩ | ⟨-, later⟩
      · exact ⟨[name], content, here, List.cons_ne_nil _ _, Nat.le_add_left _ _,
          List.forall_mem_singleton.2 wanted, rfl⟩
      · obtain ⟨below, content, there, -, short, wanteds, rfl⟩ := ih.1 later
        rw [List.append_assoc] at there
        exact ⟨name :: below, content, there, List.cons_ne_nil _ _, Nat.succ_le_succ short,
          List.forall_mem_cons.2 ⟨wanted, wanteds⟩, rfl⟩
    · rintro ⟨below, content, there, several, short, wanteds, rfl⟩
      obtain ⟨name, below, rfl⟩ := List.exists_cons_of_ne_nil several
      obtain ⟨wanted, wanteds⟩ := List.forall_mem_cons.1 wanteds
      rw [List.append_cons] at there
      have here : ∃ e, fs.at? (l ++ [name]) = some e ∧ (below ≠ [] → e = .directory) := by
        by_cases last : below = []
        · subst last
          rw [List.append_nil] at there
          exact ⟨_, there, absurd rfl⟩
        · exact ⟨_, tree.directory_above there last, fun _ => rfl⟩
      obtain ⟨e, here, above⟩ := here
      have listed := mem_names_iff.2 (Option.isSome_iff_exists.2 ⟨e, here⟩)
      refine ⟨name, List.mem_filter.2 ⟨listed, wanted⟩, mem_filesUnder_iff.2 ?_⟩
      cases below with
      | nil =>
        rw [List.append_nil] at there
        exact .inl ⟨content, there, rfl⟩
      | cons next below =>
        have directory : e = .directory := above (List.cons_ne_nil _ _)
        exact .inr ⟨directory ▸ here, ih.2 ⟨next :: below, content, there, List.cons_ne_nil _ _,
          Nat.le_of_succ_le_succ short, wanteds, rfl⟩⟩

theorem IsTree.components_of_mem_filesUnder (tree : fs.IsTree) (written : path ≠ "")
    (met : file ∈ fs.filesUnder isWanted levels l path name) :
    Path.components path ++ [.name name] <+: Path.components file := by
  rcases mem_filesUnder_iff.1 met with ⟨content, here, rfl⟩ | ⟨here, later⟩
  · exact ⟨[], (List.append_nil _).trans
      (Path.components_joinRaw written (tree.name_of_at? here)).symm⟩
  · have is := tree.name_of_at? here
    obtain ⟨below, content, there, -, -, -, rfl⟩ := tree.mem_filesTo_iff.1 later
    rw [Path.components_foldl_joinRaw (Path.joinRaw_ne_empty path is) (tree.names_below there),
      Path.components_joinRaw written is]
    exact List.prefix_append _ _

theorem IsTree.nodup_filesTo (tree : fs.IsTree) (written : path ≠ "") :
    ((fs.filesTo isWanted levels l path).map Path.components).Nodup := by
  induction levels generalizing l path with
  | zero => exact List.nodup_nil
  | succ levels ih =>
    rw [filesTo_succ, List.map_flatMap, List.nodup_flatMap]
    refine ⟨fun name _ => ?_, ((tree.nodup_names l).filter isWanted).pairwise_of_forall_ne ?_⟩
    · unfold filesUnder
      split
      · exact List.nodup_singleton _
      · next here => exact ih (Path.joinRaw_ne_empty path (tree.name_of_at? here))
      · exact List.nodup_nil
    · -- the paths differ in the component behind those of the directory
      intro name _ other _ differ cs found found'
      obtain ⟨file, met, rfl⟩ := List.mem_map.1 found
      obtain ⟨file', met', same⟩ := List.mem_map.1 found'
      have front := tree.components_of_mem_filesUnder written met
      have front' := tree.components_of_mem_filesUnder written met'
      rw [same] at front'
      have one := (List.prefix_of_prefix_length_le front front' (by simp)).eq_of_length (by simp)
      exact differ (by simpa using one)

end Walks

/-! All that is below a directory -/

section Below

variable {isWanted : RawText → Bool} {path file : RawText}

theorem length_le_depth (there : fs.at? l = some e) : l.length ≤ fs.depth := by
  by_cases root : l = []
  · simp [root]
  · have member : l.length ∈ fs.entries.map (·.1.length) :=
      List.mem_map.2 ⟨(l, e), mem_of_at? root there, rfl⟩
    rw [depth, List.foldl_max_eq_max (List.ne_nil_of_mem member)]
    exact Nat.le_trans (List.le_max_of_mem member) (Nat.le_max_right _ _)

theorem IsTree.mem_filesBelow_iff (tree : fs.IsTree) (located : fs.locate path = .ok l) :
    file ∈ fs.filesBelow isWanted path ↔
      ∃ below content, fs.at? (l ++ below) = some (.file content) ∧ below ≠ [] ∧
        (∀ name ∈ below, isWanted name = true) ∧ file = below.foldl Path.joinRaw path := by
  rw [filesBelow, located, tree.mem_filesTo_iff]
  constructor
  · rintro ⟨below, content, there, several, -, rest⟩
    exact ⟨below, content, there, several, rest⟩
  · rintro ⟨below, content, there, several, rest⟩
    have short : below.length ≤ fs.depth := by
      have bound := length_le_depth there
      rw [List.length_append] at bound
      omega
    exact ⟨below, content, there, several, short, rest⟩

theorem IsTree.nodup_filesBelow (tree : fs.IsTree) (written : path ≠ "") :
    ((fs.filesBelow isWanted path).map Path.components).Nodup := by
  unfold filesBelow
  split
  · exact tree.nodup_filesTo written
  · exact List.nodup_nil

end Below

end CodeOutline.FileSystem
