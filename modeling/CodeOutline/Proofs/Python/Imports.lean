import CodeOutline.Proofs.Python.Spans
import CodeOutline.Proofs.Python.Clauses
import CodeOutline.Proofs.Token.Firsts
import Mathlib.Data.List.Sort

/-!
Imports of documents. They are read from the lines in front of the first statement of another kind.
When each import statement there stands alone on its line with spaces beside its keywords, and no
other line begins as one, the imports are what these statements tell, in their order.
-/

set_option autoImplicit false

namespace CodeOutline.Analysis.Python

open Syntax (Node)

/-! ## Statements in front -/

def isImport (n : Node) : Bool :=
  n.kind == "import_statement" || n.kind == "import_from_statement"

/-- The import statements in front of the first statement that is no import, comment or
docstring. -/
def importNodes (root : Node) : List Node := (root.named.takeWhile isPreamble).filter isImport

/-- The line of that statement. -/
def limit? (root : Node) : Option Nat :=
  (root.named.find? (fun n => !isPreamble n)).map (·.start.line)

/-- The import statement stands alone on its line and has no errors. Spaces and tabs are its blanks,
and spaces stand beside its keywords. -/
structure StandsPlainly (text : String) (root n : Node) : Prop where
  alone : root.named.countP (fun m => m.start.line == n.start.line) = 1
  shown : (Text.lines text)[n.start.line]?.map Text.trim = some n.text
  sound : ∀ x ∈ n.children, x.kind ≠ "ERROR"
  even : IsEven n.chars
  spaced : IsSpacedOut n

instance (text : String) (root n : Node) : Decidable (StandsPlainly text root n) :=
  decidable_of_iff (_ ∧ _ ∧ _ ∧ _ ∧ _)
    ⟨fun ⟨alone, shown, sound, even, spaced⟩ => ⟨alone, shown, sound, even, spaced⟩,
      fun plain => ⟨plain.alone, plain.shown, plain.sound, plain.even, plain.spaced⟩⟩

/-- The line begins as an import statement. -/
def IsImportLine (line : String) : Prop :=
  "import ".toList <+: Text.trimChars line.toList ∨
    "from ".toList <+: Text.trimChars line.toList ∧
      " import ".toList <:+: (Text.trimChars line.toList).drop 5

instance : DecidablePred IsImportLine := fun _ => inferInstanceAs (Decidable (_ ∨ _))

/-- No line in front begins as an import statement where none starts. -/
def OthersAreQuiet (text : String) (root : Node) : Prop :=
  ∀ l ∈ (Text.lines text).zipIdx, (∀ limit ∈ limit? root, l.2 < limit) →
    (∀ n ∈ importNodes root, n.start.line ≠ l.2) → ¬IsImportLine l.1

instance (text : String) (root : Node) : Decidable (OthersAreQuiet text root) := by
  delta OthersAreQuiet
  infer_instance

theorem lineImports_of_other {line : String} (other : ¬IsImportLine line) (number : Nat) :
    lineImports number line = [] := by
  rw [IsImportLine, not_or] at other
  have trimmed : (Text.trim line).toList = Text.trimChars line.toList := String.toList_ofList
  unfold lineImports
  dsimp only
  split
  · rfl
  · split
    · next rest begins =>
      split
      · next source names cut =>
        obtain ⟨behind, drop, rfl⟩ := Option.map_eq_some_iff.1 begins
        obtain ⟨⟨before, after⟩, found, -⟩ := Option.map_eq_some_iff.1 cut
        have inside := (Text.append_of_cutFirst? found).trans String.toList_ofList
        have parts := (Syntax.Scan.append_of_dropStart? drop).trans trimmed
        rw [← parts] at other
        exact absurd ⟨List.prefix_append _ _, before, after, inside⟩ other.2
      · rfl
    · split
      · next rest begins =>
        obtain ⟨behind, drop, -⟩ := Option.map_eq_some_iff.1 begins
        refine absurd ⟨behind, ?_⟩ other.1
        rw [← trimmed]
        exact Syntax.Scan.append_of_dropStart? drop
      · rfl

/-! ## Lines that matter -/

theorem flatMap_filter_of_nil {α β : Type} {items : List α} {f : α → List β} {p : α → Bool}
    (nothing : ∀ a ∈ items, p a = false → f a = []) :
    (items.filter p).flatMap f = items.flatMap f := by
  induction items with
  | nil => rfl
  | cons a items ih =>
    obtain ⟨first, rest⟩ := List.forall_mem_cons.1 nothing
    cases kept : p a with
    | true => rw [List.filter_cons_of_pos kept, List.flatMap_cons, List.flatMap_cons, ih rest]
    | false =>
      rw [List.filter_cons_of_neg (by simp [kept]), List.flatMap_cons, first kept,
        List.nil_append, ih rest]

theorem map_filter_zipIdx_eq {α : Type} {lines : List α} {rows : List Nat}
    (sorted : rows.Pairwise (· < ·)) (short : ∀ k ∈ rows, k < lines.length) :
    (lines.zipIdx.filter (fun l => decide (l.2 ∈ rows))).map Prod.snd = rows := by
  have numbers : (lines.zipIdx.filter (fun l => decide (l.2 ∈ rows))).map Prod.snd =
      (List.range' 0 lines.length).filter (fun k => decide (k ∈ rows)) := by
    rw [← List.zipIdx_map_snd, List.filter_map]
    rfl
  rw [numbers]
  refine ((List.pairwise_lt_range' 1).filter _).eq_of_mem_iff sorted (fun k => ?_)
  simpa using short k

def onRow {α β : Type} (lines : List α) (f : α × Nat → List β) (k : Nat) : List β :=
  (lines[k]?.map (fun a => f (a, k))).getD []

theorem onRow_of_getElem? {α β : Type} {lines : List α} {f : α × Nat → List β} {k : Nat} {a : α}
    (there : lines[k]? = some a) : onRow lines f k = f (a, k) := by
  rw [onRow, there, Option.map_some, Option.getD_some]

/-- Lines come to what items come to that stand on some of them, in order, when the others come to
nothing. -/
theorem flatMap_zipIdx_eq {α β γ : Type} {lines : List α} {items : List γ} (row : γ → Nat)
    {f : α × Nat → List β} {g : γ → List β}
    (sorted : items.Pairwise (fun i j => row i < row j))
    (each : ∀ i ∈ items, ∃ a, lines[row i]? = some a ∧ f (a, row i) = g i)
    (other : ∀ k a, lines[k]? = some a → (∀ i ∈ items, row i ≠ k) → f (a, k) = []) :
    lines.zipIdx.flatMap f = items.flatMap g := by
  have short : ∀ k ∈ items.map row, k < lines.length := by
    refine List.forall_mem_map.2 (fun i member => ?_)
    obtain ⟨a, there, -⟩ := each i member
    exact (List.getElem?_eq_some_iff.1 there).1
  have quiet : ∀ l ∈ lines.zipIdx, decide (l.2 ∈ items.map row) = false → f l = [] := by
    intro l member apart
    refine other l.2 l.1 (List.mem_zipIdx_iff_getElem?.1 member) ?_
    simpa using apart
  calc lines.zipIdx.flatMap f
    _ = (lines.zipIdx.filter (fun l => decide (l.2 ∈ items.map row))).flatMap f :=
        (flatMap_filter_of_nil quiet).symm
    _ = ((lines.zipIdx.filter (fun l => decide (l.2 ∈ items.map row))).map Prod.snd).flatMap
          (onRow lines f) := by
        rw [List.flatMap_map]
        refine List.flatMap_congr (fun l member => ?_)
        have there := List.mem_zipIdx_iff_getElem?.1 (List.mem_filter.1 member).1
        exact (onRow_of_getElem? there).symm
    _ = (items.map row).flatMap (onRow lines f) := by
        rw [map_filter_zipIdx_eq (List.pairwise_map.2 sorted) short]
    _ = items.flatMap g := by
        rw [List.flatMap_map]
        refine List.flatMap_congr (fun i member => ?_)
        obtain ⟨a, there, same⟩ := each i member
        rw [onRow_of_getElem? there, same]

/-! ## Rows of statements -/

section Rows

variable {text : String} {root x y n : Node}

theorem line_le_of_sublist (read : Grammar.Python.read? text.toList = some root)
    (later : [x, y].Sublist root.named) : x.start.line ≤ y.start.line := by
  have here := Grammar.Python.isOf_of_read? read
  have order := Grammar.Python.inOrder_of_read? read
  have among : [x, y].Sublist root.children := later.trans List.filter_sublist
  have apart := List.pairwise_iff_forall_sublist.1 order.apart among
  have first : x ∈ root.children := among.subset List.mem_cons_self
  have second : y ∈ root.children := among.subset (by simp)
  refine (here.child first).start.line_le (here.child second).start ?_
  exact Nat.le_trans (order.each x first).1.start_le_stop apart

theorem StandsPlainly.line_lt (plain : StandsPlainly text root x)
    (read : Grammar.Python.read? text.toList = some root)
    (later : [x, y].Sublist root.named) : x.start.line < y.start.line := by
  refine Nat.lt_of_le_of_ne (line_le_of_sublist read later) (fun same => ?_)
  have both := later.countP_le (p := fun m => m.start.line == x.start.line)
  rw [plain.alone] at both
  simp [← same] at both

theorem StandsPlainly.isWritten (plain : StandsPlainly text root n)
    (read : Grammar.Python.read? text.toList = some root) (member : n ∈ importNodes root) :
    (statementOf n).IsWritten n.chars := by
  obtain ⟨front, own⟩ := List.mem_filter.1 member
  have child := Node.mem_children_of_mem_named ((List.takeWhile_sublist _).subset front)
  refine isWritten_of_read? read child ?_ plain.sound plain.even plain.spaced
  simpa [isImport] using own

theorem importNodes_sublist (root : Node) : (importNodes root).Sublist root.named :=
  List.filter_sublist.trans (List.takeWhile_sublist _)

theorem StandsPlainly.line_lt_limit (plain : StandsPlainly text root n)
    (read : Grammar.Python.read? text.toList = some root) (member : n ∈ importNodes root) :
    ∀ limit ∈ limit? root, n.start.line < limit := by
  intro limit found
  obtain ⟨m, first, rfl⟩ := Option.map_eq_some_iff.1 found
  obtain ⟨other, front, back, parts, before⟩ := List.find?_eq_some_iff_append.1 first
  have all : root.named.takeWhile isPreamble = front := by
    rw [parts, List.takeWhile_append_of_pos (by simpa using before),
      List.takeWhile_cons_of_neg (by simpa using other), List.append_nil]
  have ahead : n ∈ front := all ▸ (List.mem_filter.1 member).1
  refine plain.line_lt read ?_
  rw [parts]
  exact (List.singleton_sublist.2 ahead).append (List.singleton_sublist.2 List.mem_cons_self)

end Rows

/-! ## The imports of a document -/

/-- The imports that an import statement tells, each placed on the line where it starts. -/
def toldImports (text : String) (n : Node) : List ImportToken :=
  (statementOf n).imports n.start.line ((Text.lines text)[n.start.line]?.getD "")

theorem exists_shown (text : String) (limit : Option Nat) : ∃ lines : List String,
    recoveredImports text limit = lines.zipIdx.flatMap (fun l => lineImports l.2 l.1) ∧
      ∀ {k : Nat} {line : String}, lines[k]? = some line ↔
        (∀ l ∈ limit, k < l) ∧ (Text.lines text)[k]? = some line := by
  cases limit with
  | none => exact ⟨Text.lines text, rfl, by simp⟩
  | some l => exact ⟨(Text.lines text).take l, rfl, by simp [List.getElem?_take]⟩

theorem recoveredImports_eq {text : String} {root : Node}
    (read : Grammar.Python.read? text.toList = some root)
    (plain : ∀ n ∈ importNodes root, StandsPlainly text root n)
    (quiet : OthersAreQuiet text root) :
    recoveredImports text (limit? root) = (importNodes root).flatMap (toldImports text) := by
  obtain ⟨lines, reads, shown⟩ := exists_shown text (limit? root)
  rw [reads]
  refine flatMap_zipIdx_eq (fun n => n.start.line) ?sorted ?each ?other
  case sorted =>
    refine List.pairwise_iff_forall_sublist.2 (fun {x y} pair => ?_)
    have member : x ∈ importNodes root := pair.subset List.mem_cons_self
    exact (plain x member).line_lt read (pair.trans (importNodes_sublist root))
  case each =>
    intro n member
    have here := plain n member
    obtain ⟨line, there, trimmed⟩ := Option.map_eq_some_iff.1 here.shown
    refine ⟨line, shown.2 ⟨here.line_lt_limit read member, there⟩, ?_⟩
    rw [toldImports, there, Option.getD_some]
    refine lineImports_of_isWritten (here.isWritten read member) ?_ _
    rw [trimmed, Node.text, String.toList_ofList]
  case other =>
    intro k line there apart
    obtain ⟨above, there⟩ := shown.1 there
    exact lineImports_of_other
      (quiet (line, k) (List.mem_zipIdx_iff_getElem?.2 there) above apart) k

theorem foldl_imports {α : Type} {add : TokenTree → α → TokenTree}
    (same : ∀ t a, (add t a).imports = t.imports) (t : TokenTree) (items : List α) :
    (items.foldl add t).imports = t.imports := by
  induction items generalizing t with
  | nil => rfl
  | cons a items ih => rw [List.foldl_cons, ih, same]

theorem imports_addStatement (t : TokenTree) (n : Node) :
    (addStatement t n).imports = t.imports := by
  unfold addStatement
  dsimp only
  split
  · split <;> rfl
  · split <;> rfl
  · have same (t : TokenTree) (v : VarToken) : (t.addVariable v).imports = t.imports := rfl
    exact foldl_imports same t _
  · rfl

theorem imports_foldl_addImport (t : TokenTree) (items : List ImportToken) :
    (items.foldl TokenTree.addImport t).imports =
      items.foldl (EntityToken.insertNew (·.name)) t.imports := by
  induction items generalizing t with
  | nil => rfl
  | cons i items ih => rw [List.foldl_cons, List.foldl_cons, ih, TokenTree.addImport]

/-- Where each import statement in front stands alone on its line and no other line begins as one,
the imports are those that the statements tell, the first with each name. -/
theorem imports_of_statements {text : String} {root : Node}
    (read : Grammar.Python.read? text.toList = some root)
    (plain : ∀ n ∈ importNodes root, StandsPlainly text root n)
    (quiet : OthersAreQuiet text root) :
    ∃ t, tree? text = some t ∧
      t.imports = firsts (·.name) ((importNodes root).flatMap (toldImports text)) := by
  refine ⟨_, by rw [tree?, read, Option.map_some], ?_⟩
  rw [treeOf, foldl_imports imports_addStatement, imports_foldl_addImport,
    ← recoveredImports_eq read plain quiet]
  exact foldl_insertNew_nil _ _

/-- A docstring, two import statements and another statement. -/
def toolsText : String :=
  "\"\"\"Tools.\"\"\"\nimport os, sys as system\nfrom a.b import (c, d)\nx = 1"

theorem plain_tools : (Grammar.Python.read? toolsText.toList).map (fun root => decide
      ((∀ n ∈ importNodes root, StandsPlainly toolsText root n) ∧
        OthersAreQuiet toolsText root)) = some true := by
  decide +kernel

theorem imports_of_statements_tools :
    ∃ root, Grammar.Python.read? toolsText.toList = some root ∧
      (∀ n ∈ importNodes root, StandsPlainly toolsText root n) ∧ OthersAreQuiet toolsText root ∧
      ∃ t, tree? toolsText = some t ∧
        t.imports = firsts (·.name) ((importNodes root).flatMap (toldImports toolsText)) := by
  obtain ⟨root, read, both⟩ := Option.map_eq_some_iff.1 plain_tools
  obtain ⟨plain, quiet⟩ := of_decide_eq_true both
  exact ⟨root, read, plain, quiet, imports_of_statements read plain quiet⟩

/-- The line of a docstring is read as well. -/
theorem imports_ne_told :
    (tree? "\"\"\"\nimport foo\n\"\"\"\nimport os").map (fun t => t.imports.map (·.name)) ≠
      (Grammar.Python.read? "\"\"\"\nimport foo\n\"\"\"\nimport os".toList).map (fun root =>
        ((importNodes root).flatMap (toldImports "\"\"\"\nimport foo\n\"\"\"\nimport os")).map
          (·.name)) := by
  decide +kernel

end CodeOutline.Analysis.Python
