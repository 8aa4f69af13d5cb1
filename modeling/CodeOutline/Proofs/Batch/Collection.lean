import CodeOutline.Batch
import CodeOutline.Proofs.FileSystem.Trees
import CodeOutline.Proofs.Text.Occurrence
import Mathlib.Data.List.Pairwise

/-!
The files that a batch collects below a directory: those whose language is known, but for hidden
ones and for what the configuration excludes. Only names below the directory can hide a file; its
own name and those above it cannot. A name that is no text hides nothing, whatever it begins with.
-/

set_option autoImplicit false

namespace CodeOutline.Batch

theorem isShown_iff {name : RawText} :
    isShown name = true ↔ ∀ s, name = .ofText s → s.toList.head? ≠ some '.' := by
  have dotted (s : String) : Text.startsWith s "." = true ↔ s.toList.head? = some '.' := by
    rw [Text.startsWith_iff]
    cases s.toList with
    | nil => simp
    | cons c cs => simp [eq_comm]
  unfold isShown
  split
  · next s text =>
    obtain rfl := RawText.text?_eq_some_iff.1 text
    simp [← dotted]
  · next noText =>
    refine iff_of_true rfl ?_
    rintro s rfl
    cases (RawText.text?_ofText s).symm.trans noText

theorem excludes_eq_false_iff {c : Config} {path : RawText} :
    c.excludes path = false ↔ ∀ pattern ∈ c.excluded, Glob.isMatch pattern path.lossy = false := by
  simp [Config.excludes]

section Directory

variable (b : Batch) {fs : FileSystem} {root : RawText} {l : Location}
  (located : fs.locate (b.absolute root) = .ok l) (directory : fs.at? l = some .directory)

include located directory

theorem collect_of_directory :
    b.collect fs root = ((fs.filesBelow isShown (b.absolute root)).filter (fun path =>
      !b.config.excludes path && (detectLanguage path b.config).isSome)).mergeSort Path.le := by
  have noFile : fs.isFile (b.absolute root) = false := by
    simp [FileSystem.isFile, FileSystem.look, located, directory, bind, Except.bind]
  simp [collect, noFile]

theorem pairwise_collect (tree : fs.IsTree) :
    (b.collect fs root).Pairwise (fun p q => Path.le p q = true ∧ Path.le q p = false) := by
  have written : b.absolute root ≠ "" := by
    intro empty
    rw [empty] at located
    cases located
  rw [collect_of_directory b located directory]
  exact Path.pairwise_sort
    ((List.filter_sublist.map Path.components).nodup (tree.nodup_filesBelow written))

theorem mem_collect_iff (tree : fs.IsTree) {path : RawText} :
    path ∈ b.collect fs root ↔ ∃ below content, fs.at? (l ++ below) = some (.file content) ∧
      path = Path.joinRaw (b.absolute root) (Path.ofPieces below) ∧
      (∀ name ∈ below, isShown name = true) ∧ b.config.excludes path = false ∧
      ∃ language, detectLanguage path b.config = some language := by
  rw [collect_of_directory b located directory, List.mem_mergeSort, List.mem_filter,
    tree.mem_filesBelow_iff located, Bool.and_eq_true, Bool.not_eq_true', Option.isSome_iff_exists]
  constructor
  · rintro ⟨⟨below, content, there, several, shown, rfl⟩, kept, known⟩
    have joined := Path.foldl_joinRaw (b.absolute root) (tree.names_below there) several
    rw [joined] at kept known ⊢
    exact ⟨below, content, there, rfl, shown, kept, known⟩
  · rintro ⟨below, content, there, rfl, shown, kept, known⟩
    have several : below ≠ [] := by
      rintro rfl
      rw [List.append_nil, directory] at there
      cases there
    have joined := Path.foldl_joinRaw (b.absolute root) (tree.names_below there) several
    exact ⟨⟨below, content, there, several, shown, joined.symm⟩, kept, known⟩

end Directory

/-- Below a directory just those files are collected that have no text with a dot in front among
their names, that no exclusion pattern matches, and whose language is known, each of them once and
in the order of the components of their paths. -/
theorem collect_lists (b : Batch) {fs : FileSystem} (tree : fs.IsTree) {root : RawText}
    {l : Location} (located : fs.locate (b.absolute root) = .ok l)
    (directory : fs.at? l = some .directory) :
    let found := b.collect fs root
    found.Nodup ∧ found.Pairwise (fun p q => Path.le p q = true ∧ Path.le q p = false) ∧
    ∀ path, path ∈ found ↔ ∃ below content, fs.at? (l ++ below) = some (.file content) ∧
      path = Path.joinRaw (b.absolute root) (Path.ofPieces below) ∧
      (∀ name ∈ below, ∀ s, name = .ofText s → s.toList.head? ≠ some '.') ∧
      (∀ pattern ∈ b.config.excluded, Glob.isMatch pattern path.lossy = false) ∧
      ∃ language, detectLanguage path b.config = some language := by
  intro found
  have ascending := pairwise_collect b located directory tree
  refine ⟨?_, ascending, fun path => ?_⟩
  · refine List.nodup_iff_pairwise_ne.2 (ascending.imp ?_)
    rintro p q ⟨before, after⟩ rfl
    rw [before] at after
    cases after
  · simpa only [isShown_iff, excludes_eq_false_iff] using
      mem_collect_iff b located directory tree

/-- A directory whose own name is hidden, with a file in it that is not. -/
theorem collect_lists_hiddenRoot :
    let content : Content := .text ""
    let fs : FileSystem := { entries := [(["ws"], .directory), (["ws", ".site"], .directory),
      (["ws", ".site", "lib"], .directory), (["ws", ".site", "lib", "a.py"], .file content),
      (["ws", ".site", ".git"], .directory), (["ws", ".site", ".git", "b.py"], .file content)] }
    let b : Batch := { directory := "/ws", config := { excluded := ["**/vendor/**"] } }
    fs.IsTree ∧ fs.locate (b.absolute ".site") = .ok ["ws", ".site"] ∧
      fs.at? ["ws", ".site"] = some .directory ∧
      RawText.ofText "/ws/.site/lib/a.py" ∈ b.collect fs ".site" := by
  intro content fs b
  have tree : fs.IsTree := ⟨by decide, by decide, by decide⟩
  have located : fs.locate (b.absolute ".site") = .ok ["ws", ".site"] := by decide +kernel
  have directory : fs.at? ["ws", ".site"] = some .directory := by decide
  have listed := (collect_lists b tree located directory).2.2
  refine ⟨tree, located, directory, (listed "/ws/.site/lib/a.py").2 ?_⟩
  have known : detectLanguage "/ws/.site/lib/a.py" b.config = some "python" := by decide +kernel
  have shown : ∀ name ∈ [RawText.ofText "lib", RawText.ofText "a.py"], isShown name = true := by
    decide +kernel
  exact ⟨["lib", "a.py"], content, by decide, by decide +kernel,
    fun name member => isShown_iff.1 (shown name member), by decide +kernel, "python", known⟩

/-- A file whose name begins with a dot but is no text, and one below another directory, which
comes first although its path is the greater one as a text. -/
theorem collect_raw_name :
    let hidden : RawText := ⟨[0x2E, 0xFF, 0x2E, 0x70, 0x79]⟩
    let content : Content := .text ""
    let fs : FileSystem := { entries := [(["ws"], .directory), (["ws", hidden], .file content),
      (["ws", "a"], .directory), (["ws", "a", "b.py"], .file content),
      (["ws", "a-x.py"], .file content)] }
    let b : Batch := { directory := "/ws", config := {} }
    let found := b.collect fs ""
    (∃ path ∈ found, Path.fileName? path = some hidden) ∧
      ¬found.Pairwise (fun p q => p.bytes < q.bytes) := by
  intro hidden content fs b found
  have tree : fs.IsTree := ⟨by decide, by decide, by decide⟩
  have located : fs.locate (b.absolute "") = .ok ["ws"] := by decide +kernel
  have directory : fs.at? ["ws"] = some .directory := by decide
  have deep : RawText.ofText "/ws/a/b.py" ∈ found := by
    refine (mem_collect_iff b located directory tree).2 ⟨["a", "b.py"], content, ?_⟩
    exact ⟨by decide, by decide +kernel, by decide +kernel, rfl, "python", by decide +kernel⟩
  have flat : RawText.ofText "/ws/a-x.py" ∈ found := by
    refine (mem_collect_iff b located directory tree).2 ⟨["a-x.py"], content, ?_⟩
    exact ⟨by decide, by decide +kernel, by decide +kernel, rfl, "python", by decide +kernel⟩
  constructor
  · refine ⟨Path.joinRaw "/ws/" hidden, ?_, by decide +kernel⟩
    refine (mem_collect_iff b located directory tree).2 ⟨[hidden], content, ?_⟩
    exact ⟨by decide, by decide +kernel, by decide +kernel, rfl, "python", by decide +kernel⟩
  · intro spelled
    -- one of the two comes first in the list, and so in both orders
    let Both (p q : RawText) : Prop :=
      (Path.le p q = true ∧ Path.le q p = false) ∧ p.bytes < q.bytes
    have : Std.Symm (fun p q => Both p q ∨ Both q p) := ⟨fun _ _ => Or.symm⟩
    have both : found.Pairwise (fun p q => Both p q ∨ Both q p) :=
      ((pairwise_collect b located directory tree).and spelled).imp Or.inl
    have either := both.forall deep flat (by decide)
    revert either
    decide +kernel

end CodeOutline.Batch
