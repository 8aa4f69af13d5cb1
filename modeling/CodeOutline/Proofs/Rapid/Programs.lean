import CodeOutline.Proofs.Analysis.Distinct
import CodeOutline.Proofs.Rapid.Groups
import CodeOutline.Proofs.Rapid.Writing
import CodeOutline.Proofs.Text.Pieces
import CodeOutline.Proofs.Text.Trimming

/-!
Programs written line by line, and the outlines that are read from them. Places and visibility
apart, the outline of a written program is the program.
-/

set_option autoImplicit false

namespace CodeOutline

namespace Analysis.Rapid

open Source (Argument Routine Entry)

namespace Source

/-- The token of a routine in an outline; procedures have the type of those that declare none. -/
def Routine.token (r : Routine) : MethodToken :=
  { name := r.name, type := some (r.type.elim noType (·.1))
    arguments := r.arguments.map Argument.token }

/-- What is declared inside a module. -/
inductive Content
  | record (name : Identifier)
  | routine (r : Routine)

namespace Content

def record? : Content → Option Identifier
  | .record name => some name
  | .routine _ => none

def routine? : Content → Option Routine
  | .record _ => none
  | .routine r => some r

def entry : Content → Entry
  | .record name => .record name
  | .routine r => .routine r

def member : Content → Member
  | .record name => .record { name := name.1 }
  | .routine r => .routine r.token

end Content

/-- A module; its records have distinct names, and so have its routines. -/
structure Module where
  name : Identifier
  contents : List Content
  records_distinct : (contents.filterMap Content.record?).Nodup
  routines_distinct : ((contents.filterMap Content.routine?).map (·.name)).Nodup

namespace Module

variable (m : Module)

/-- The lines of a module. -/
def entries : List Entry := .module m.name :: m.contents.map Content.entry

/-- The module as it should stand in an outline. -/
def entity : EntityToken :=
  { name := m.name
    properties := (m.contents.filterMap Content.record?).map (fun name => { name := name.1 })
    methods := (m.contents.filterMap Content.routine?).map Routine.token }

end Module

/-- Modules with distinct names, and traps with distinct names. -/
structure Program where
  modules : List Module
  traps : List Identifier
  modules_distinct : (modules.map (·.name)).Nodup
  traps_distinct : traps.Nodup

/-- The token of a trap in an outline. -/
def trapToken (name : Identifier) : MethodToken :=
  { name := name.1, type := some "void", isStatic := true }

/-- The program as its outline should show it. -/
def Program.outline (p : Program) : TokenTree :=
  { classes := p.modules.map Module.entity, functions := p.traps.map trapToken }

namespace Entry

def trap? : Entry → Option Identifier
  | .trap name => some name
  | _ => none

/-- The line is of a module and not of a trap. -/
def isOfModule (e : Entry) : Bool := e.trap?.isNone

end Entry

abbrev Blanks := {cs : List Char // ∀ c ∈ cs, Text.isBlank c = true ∧ c ≠ '\n'}

/-- A line of the text of a program: a declaration with blanks around it, blanks alone, or the end
of something. -/
inductive Row
  | entry (indent : Blanks) (e : Entry) (behind : Blanks)
  | blank (blanks : Blanks)
  | ending (indent : Blanks) (rest : {cs : List Char // '\n' ∉ cs})

namespace Row

def chars : Row → List Char
  | .entry indent e behind => indent.1 ++ (e.chars ++ behind.1)
  | .blank blanks => blanks.1
  | .ending indent rest => indent.1 ++ ("END".toList ++ rest.1)

def entry? : Row → Option Entry
  | .entry _ e _ => some e
  | .blank _ | .ending _ _ => none

end Row

/-- The text of those lines. -/
def textOf (rows : List Row) : String := String.ofList (['\n'].intercalate (rows.map Row.chars))

/-- The lines declare the modules of the program one after the other, each with its contents, and
the traps in order, anywhere among them. -/
structure Program.IsWrittenAs (p : Program) (rows : List Row) : Prop where
  modules : (rows.filterMap Row.entry?).filter Entry.isOfModule = p.modules.flatMap Module.entries
  traps : (rows.filterMap Row.entry?).filterMap Entry.trap? = p.traps

/-! Lines as they are recognized -/

theorem not_bang (blanks : Blanks) : ∀ c ∈ blanks.1, (c != '!') = true := by
  intro c member
  refine bne_iff_ne.2 ?_
  rintro rfl
  exact absurd (blanks.2 _ member).1 (by decide)

theorem declared_row (row : Row) :
    declared (String.ofList row.chars) = row.entry?.map Entry.declaration := by
  have blank (blanks : Blanks) : ∀ c ∈ blanks.1, Text.isBlank c = true :=
    fun c member => (blanks.2 c member).1
  rw [declared, codeOf_ofList]
  cases row with
  | entry indent e behind =>
    have plain : ∀ c ∈ e.chars, (c != '!') = true := by
      intro c member
      refine bne_iff_ne.2 ?_
      rintro rfl
      exact e.not_mem_chars (by decide) member
    have all : ∀ c ∈ (Row.entry indent e behind).chars, (c != '!') = true := by
      simp only [Row.chars, List.forall_mem_append]
      exact ⟨not_bang indent, plain, not_bang behind⟩
    rw [List.takeWhile_eq_self_iff.2 all, Row.chars, Text.blanks_append_trimChars (blank indent),
      Text.trimChars_append_blanks _ (blank behind), e.trimChars_chars,
      declaration?_chars]
    rfl
  | blank blanks =>
    have nothing : Text.trimChars blanks.1 = [] := by
      have trimmed := Text.blanks_append_trimChars (blank blanks) []
      rwa [List.append_nil] at trimmed
    have all : ∀ c ∈ (Row.blank blanks).chars, (c != '!') = true := not_bang blanks
    rw [List.takeWhile_eq_self_iff.2 all, Row.chars, nothing]
    rfl
  | ending indent rest =>
    have front : (Row.ending indent rest).chars.takeWhile (· != '!') =
        indent.1 ++ 'E' :: ("ND".toList ++ rest.1).takeWhile (· != '!') := by
      have spelled : "END".toList ++ rest.1 = 'E' :: ("ND".toList ++ rest.1) := by simp
      rw [Row.chars, List.takeWhile_append_of_pos (not_bang indent), spelled,
        List.takeWhile_cons_of_pos (by decide)]
    obtain ⟨cs, begins⟩ := Text.exists_trimChars_cons (c := 'E') (by decide)
      (("ND".toList ++ rest.1).takeWhile (· != '!'))
    have first : ('E' :: cs).head? = some 'E' := rfl
    rw [front, Text.blanks_append_trimChars (blank indent), begins, declaration?,
      String.toList_ofList, routine?_of_head first (by decide) (by decide),
      trap?_of_head first (by decide), record?_of_head first (by decide),
      module?_of_head first (by decide)]
    rfl

theorem Row.no_feed (row : Row) : ∀ c ∈ row.chars, (c == '\n') = false := by
  have blank (blanks : Blanks) : ∀ c ∈ blanks.1, (c == '\n') = false :=
    fun c member => beq_eq_false_iff_ne.2 (blanks.2 c member).2
  cases row with
  | entry indent e behind =>
    have plain : ∀ c ∈ e.chars, (c == '\n') = false := by
      intro c member
      refine beq_eq_false_iff_ne.2 ?_
      rintro rfl
      exact e.not_mem_chars (by decide) member
    rw [Row.chars, List.forall_mem_append, List.forall_mem_append]
    exact ⟨blank indent, plain, blank behind⟩
  | blank blanks => exact blank blanks
  | ending indent rest =>
    have others : ∀ c ∈ rest.1, (c == '\n') = false := by
      intro c member
      refine beq_eq_false_iff_ne.2 ?_
      rintro rfl
      exact rest.2 member
    rw [Row.chars, List.forall_mem_append, List.forall_mem_append]
    exact ⟨blank indent, by simp, others⟩

theorem splitChars_textOf {rows : List Row} (several : rows ≠ []) :
    Text.splitChars (· == '\n') (textOf rows).toList = rows.map Row.chars := by
  have others : ∀ piece ∈ rows.map Row.chars, ∀ c ∈ piece, (c == '\n') = false := by
    intro piece member
    obtain ⟨row, -, rfl⟩ := List.mem_map.1 member
    exact row.no_feed
  rw [textOf, String.toList_ofList]
  exact Text.splitChars_intercalate (by decide) others (by simpa using several)

theorem filterMap_declared (rows : List Row) :
    (Text.lines (textOf rows)).filterMap declared =
      (rows.filterMap Row.entry?).map Entry.declaration := by
  obtain rfl | ⟨init, last, rfl⟩ := rows.eq_nil_or_concat'
  · rfl
  · have early : (init.map (fun row => String.ofList (Text.dropReturn row.chars))).filterMap
        declared = (init.filterMap Row.entry?).map Entry.declaration := by
      rw [List.filterMap_map, List.map_filterMap]
      refine List.filterMap_congr (fun row _ => ?_)
      rw [← declared_row, Function.comp_apply, declared, codeOf_dropReturn, declared]
    have late : ((if last.chars = [] then [] else [last.chars]).map String.ofList).filterMap
        declared = (last.entry?.map Entry.declaration).toList := by
      have whole := declared_row last
      split
      · next nothing =>
        -- An empty last line declares nothing, so it may be missing.
        have empty : declared (String.ofList []) = none := by decide
        rw [nothing, empty] at whole
        rw [← whole]
        rfl
      · rw [List.map_singleton, List.filterMap_cons, whole]
        cases last.entry? <;> rfl
    have several : init ++ [last] ≠ [] := by simp
    have split := splitChars_textOf several
    rw [List.map_append, List.map_singleton] at split
    have lines : Text.lines (textOf (init ++ [last])) =
        (init.map (fun row => String.ofList (Text.dropReturn row.chars))) ++
          (if last.chars = [] then [] else [last.chars]).map String.ofList := by
      rw [Text.lines, Text.lineChars_concat split, List.map_append, List.map_map, List.map_map]
      rfl
    have declarations : (init ++ [last]).filterMap Row.entry? =
        init.filterMap Row.entry? ++ last.entry?.toList := by
      rw [List.filterMap_append]
      cases entry : last.entry? <;> simp [entry]
    rw [lines, declarations, List.filterMap_append, early, late, List.map_append]
    cases last.entry? <;> rfl

end Source

namespace Source

/-! Written programs -/

section Parts

/-- What an entry is as a part of a program; traps are none. -/
def Entry.part? : Entry → Option Part
  | .module name => some (.inl name.1)
  | .record name => some (.inr (Content.record name).member)
  | .routine r => some (.inr (Content.routine r).member)
  | .trap _ => none

theorem part?_declaration (e : Entry) : e.declaration.part? = e.part? := by
  have filled (name : Identifier) : name.1.isEmpty = false := by simpa using name.2.ne_empty
  cases e with
  | module name => exact if_neg (by simp [filled name])
  | record name | trap name => rfl
  | routine r =>
    have type : (r.type.map (·.1)).getD noType = r.type.elim noType (·.1) := by
      cases r.type <;> rfl
    simp only [Entry.declaration, Declaration.part?, filled, type, arguments_argumentChars]
    rfl

theorem trap?_declaration (e : Entry) : e.declaration.trap? = e.trap?.map trapToken := by
  cases e with
  | trap name => exact if_neg (by simpa using name.2.ne_empty)
  | module name | record name | routine r => rfl

end Parts

namespace Module

variable (m : Module)

/-- The name and the members of a module. -/
def group : String × List Member := (m.name.1, m.contents.map Content.member)

theorem parts_entries :
    m.entries.filterMap Entry.part? = .inl m.group.1 :: m.group.2.map .inr := by
  have members : (m.contents.map Content.entry).filterMap Entry.part? =
      (m.contents.map Content.member).map .inr := by
    rw [List.filterMap_map, List.map_map, ← List.filterMap_eq_map]
    refine List.filterMap_congr (fun c _ => ?_)
    cases c <;> rfl
  rw [entries, List.filterMap_cons, members]
  rfl

theorem holding_group : holding { name := m.group.1 } m.group.2 = m.entity := by
  have records : (m.contents.map Content.member).filterMap Member.record? =
      (m.contents.filterMap Content.record?).map (fun name => { name := name.1 }) := by
    rw [List.filterMap_map, List.map_filterMap]
    refine List.filterMap_congr (fun c _ => ?_)
    cases c <;> rfl
  have routines : (m.contents.map Content.member).filterMap Member.routine? =
      (m.contents.filterMap Content.routine?).map Routine.token := by
    rw [List.filterMap_map, List.map_filterMap]
    refine List.filterMap_congr (fun c _ => ?_)
    cases c <;> rfl
  have distinct := m.records_distinct.map Subtype.val_injective
  have distinct' := m.routines_distinct.map Subtype.val_injective
  rw [List.map_map] at distinct'
  rw [holding, group, records, routines, firsts_eq_self (by rwa [List.map_map]),
    firsts_eq_self (by rwa [List.map_map])]
  rfl

end Module

variable {p : Program} {rows : List Row} (written : p.IsWrittenAs rows)

include written

theorem parts_textOf :
    (linesOf (textOf rows)).filterMap partOf? = partsOf (p.modules.map Module.group) := by
  have entries : (linesOf (textOf rows)).filterMap partOf? =
      (rows.filterMap Row.entry?).filterMap Entry.part? := by
    rw [filterMap_partOf?, filterMap_declared, List.filterMap_map]
    refine List.filterMap_congr (fun e _ => ?_)
    rw [Function.comp_apply, part?_declaration]
  have others : (rows.filterMap Row.entry?).filterMap Entry.part? =
      ((rows.filterMap Row.entry?).filter Entry.isOfModule).filterMap Entry.part? := by
    rw [List.filterMap_filter]
    refine List.filterMap_congr (fun e _ => ?_)
    cases e <;> rfl
  rw [entries, others, written.modules, List.filterMap_flatMap, partsOf, List.flatMap_map]
  exact List.flatMap_congr (fun m _ => m.parts_entries)

theorem classes_textOf :
    (tree (textOf rows)).classes.map EntityToken.bare = p.modules.map Module.entity := by
  have distinct : ((p.modules.map Module.group).map Prod.fst).Nodup := by
    have names := p.modules_distinct.map Subtype.val_injective
    rwa [List.map_map] at names ⊢
  rw [bare_classes distinct (parts_textOf written), List.map_map]
  exact List.map_congr_left (fun m _ => m.holding_group)

theorem functions_textOf :
    (tree (textOf rows)).functions.map MethodToken.bare = p.traps.map trapToken := by
  have traps : ((Text.lines (textOf rows)).filterMap declared).filterMap Declaration.trap? =
      p.traps.map trapToken := by
    rw [filterMap_declared, List.filterMap_map, ← written.traps, List.map_filterMap]
    refine List.filterMap_congr (fun e _ => ?_)
    rw [Function.comp_apply, trap?_declaration]
  have distinct := p.traps_distinct.map Subtype.val_injective
  rw [bare_functions, traps]
  exact firsts_eq_self (by rwa [List.map_map])

theorem bare_textOf : (tree (textOf rows)).bare = p.outline := by
  have classes := classes_textOf written
  have functions := functions_textOf written
  obtain ⟨_, _, frame⟩ := tree_frame (textOf rows)
  rw [frame] at classes functions ⊢
  rw [TokenTree.bare, Program.outline, ← classes, ← functions]

theorem bare_mapSpan_textOf (f : Span → Span) :
    ((tree (textOf rows)).mapSpan f).bare = p.outline := by
  have shown := bare_textOf written
  have listed := classes_textOf written
  obtain ⟨classes, functions, frame⟩ := tree_frame (textOf rows)
  rw [frame] at shown listed ⊢
  have plain : ∀ e ∈ classes, e.IsPlain := by
    intro e member
    have among : e.bare ∈ p.modules.map Module.entity := by
      rw [← listed]
      exact List.mem_map_of_mem member
    obtain ⟨m, -, same⟩ := List.mem_map.1 among
    have constants : m.entity.constants = e.constants := congrArg (·.constants) same
    have accessors : m.entity.accessors = e.accessors := congrArg (·.accessors) same
    have traits : m.entity.traits = e.traits := congrArg (·.traits) same
    exact ⟨constants.symm, accessors.symm, traits.symm⟩
  rw [TokenTree.bare_mapSpan f functions plain, shown]

/-- The outline of a written program, places and visibility apart, has exactly its modules with
their records and routines, and its traps, in order. -/
theorem outline_of_written (d : Document) (c : Config) :
    ∃ t, Analyzer.rapid.analyze { d with text := textOf rows } c = .ok t ∧ t.bare = p.outline := by
  refine ⟨_, Analyzer.analyze_of_read (t := tree (textOf rows)) rfl, ?_⟩
  split
  · exact bare_textOf written
  · exact bare_mapSpan_textOf written _

omit written

section Tools

private theorem identifier_of_all {c : Char} {cs : List Char}
    (first : (c.isAlpha || c == '_') = true)
    (others : cs.all (fun d => d.isAlphanum || d == '_') = true) :
    Name.IsIdentifier (String.ofList (c :: cs)) := by
  refine ⟨c, cs, String.toList_ofList, by simpa using first, ?_⟩
  simpa using others

private def num : Identifier := ⟨"num", identifier_of_all (by decide) (by decide)⟩

private def small : Identifier := ⟨"a", identifier_of_all (by decide) (by decide)⟩

private def large : Identifier := ⟨"LOCAL", identifier_of_all (by decide) (by decide)⟩

private def proc : Identifier := ⟨"PROC", identifier_of_all (by decide) (by decide)⟩

private def trap : Identifier := ⟨"TRAP", identifier_of_all (by decide) (by decide)⟩

/-- A module whose name is a keyword, and so are the names of a function in it and of a trap. -/
def tools : Program where
  modules := [
    { name := proc
      contents := [
        .record num,
        .routine { isLocal := true, type := some num, name := trap, arguments :=
          [⟨num, small⟩, ⟨num, large⟩] },
        .routine { name := small }]
      records_distinct := by decide
      routines_distinct := by decide },
    { name := large
      contents := []
      records_distinct := by decide
      routines_distinct := by decide }]
  traps := [proc]
  modules_distinct := by decide
  traps_distinct := by decide

private theorem blanks_of_all {cs : List Char}
    (all : cs.all (fun c => Text.isBlank c && c != '\n') = true) :
    ∀ c ∈ cs, Text.isBlank c = true ∧ c ≠ '\n' := by
  simpa using all

private def noBlanks : Blanks := ⟨[], blanks_of_all rfl⟩

private def wideBlanks : Blanks := ⟨['\t', '\u00a0'], blanks_of_all (by decide)⟩

private def carriageReturn : Blanks := ⟨['\r'], blanks_of_all (by decide)⟩

/-- The lines of that program, with the trap in the middle of the module. -/
def toolLines : List Row := [
  .entry noBlanks (.module proc) carriageReturn,
  .entry wideBlanks (.record num) noBlanks,
  .entry wideBlanks (.trap proc) noBlanks,
  .ending wideBlanks ⟨"TRAP".toList, by decide⟩,
  .blank wideBlanks,
  .entry noBlanks (.routine { isLocal := true, type := some num, name := trap, arguments :=
    [⟨num, small⟩, ⟨num, large⟩] }) noBlanks,
  .ending noBlanks ⟨"FUNC ! add".toList, by decide⟩,
  .entry noBlanks (.routine { name := small }) noBlanks,
  .ending noBlanks ⟨[], by decide⟩,
  .entry noBlanks (.module large) noBlanks,
  .blank noBlanks]

theorem outline_of_written_tools : tools.IsWrittenAs toolLines ∧
    textOf toolLines = "MODULE PROC\r\n\t\u00a0RECORD num\n\t\u00a0TRAP PROC\n\t\u00a0ENDTRAP\n" ++
      "\t\u00a0\nLOCAL FUNC num TRAP(num a, num LOCAL)\nENDFUNC ! add\nPROC a()\nEND\n" ++
      "MODULE LOCAL\n" ∧
    ∃ t, Analyzer.rapid.analyze
      { language := "rapid", file := "tools.mod", text := textOf toolLines } {} = .ok t ∧
        t.bare = tools.outline := by
  have written : tools.IsWrittenAs toolLines := ⟨rfl, rfl⟩
  exact ⟨written, by decide +kernel,
    outline_of_written written ⟨"rapid", "tools.mod", "", false⟩ {}⟩

end Tools

end Source

end Analysis.Rapid

end CodeOutline
