import CodeOutline.Analyzer
import CodeOutline.Proofs.Rules.Blocks
import CodeOutline.Proofs.Syntax.Scanning
import CodeOutline.Proofs.Token.Firsts

/-!
The variables of home automation rules: the names that are declared behind the last import and
before the first rule, where bracketed bodies are hidden. A body is hidden up to the first closing
bracket behind a blank, which need not be its own, so a name may be declared in a body or in a rule
all the same. Where bodies end at their own brackets no name is.
-/

set_option autoImplicit false

namespace CodeOutline.Analysis.Rules

open Text (pieces Block blocksOf SameToBracket)

/-! ## The lines that are read for variables -/

/-- A line between others stands behind the last import and before the first rule. -/
structure IsShared (front : List String) (line : String) (back : List String) : Prop where
  imports : ∀ l ∈ line :: back, importName? l = none
  rules : ∀ l ∈ front ++ [line], ruleName? l = none

theorem forall_iff_length_le_takeWhile {α : Type} (p : α → Bool) (xs ys : List α) :
    (∀ x ∈ xs, p x = true) ↔ xs.length ≤ ((xs ++ ys).takeWhile p).length := by
  induction xs with
  | nil => simp
  | cons x xs ih =>
    rw [List.forall_mem_cons, List.cons_append]
    by_cases fits : p x = true
    · rw [List.takeWhile_cons_of_pos fits, List.length_cons, List.length_cons, ih]
      simp [fits]
    · rw [List.takeWhile_cons_of_neg fits]
      simp [fits]

theorem exists_append_afterImports (lines : List String) :
    ∃ front, lines = front ++ afterImports lines ∧
      (∀ l ∈ afterImports lines, importName? l = none) ∧
      ∀ l ∈ front.getLast?, importName? l ≠ none := by
  refine ⟨(lines.reverse.dropWhile (fun l => (importName? l).isNone)).reverse, ?_, ?_, ?_⟩
  · rw [afterImports, ← List.reverse_append, List.takeWhile_append_dropWhile, List.reverse_reverse]
  · intro l member
    rw [afterImports, List.mem_reverse] at member
    have plain := List.mem_takeWhile_imp member
    exact Option.isNone_iff_eq_none.1 plain
  · intro l last
    rw [List.getLast?_reverse] at last
    have fits := List.head?_dropWhile_not (fun l => (importName? l).isNone) lines.reverse
    rw [last] at fits
    exact Option.isSome_iff_ne_none.1 (by simpa using fits)

theorem mem_sharedLines {lines : List String} {line : String} :
    line ∈ sharedLines lines ↔
      ∃ front back, lines = front ++ line :: back ∧ IsShared front line back := by
  obtain ⟨imports, parts, noImports, last⟩ := exists_append_afterImports lines
  have length : lines.length = imports.length + (afterImports lines).length := by
    rw [← List.length_append, ← parts]
  have noRule (front back : List String) (same : lines = front ++ line :: back) :
      (∀ l ∈ front ++ [line], ruleName? l = none) ↔
        front.length + 1 ≤ (lines.takeWhile (fun l => (ruleName? l).isNone)).length := by
    have counted := forall_iff_length_le_takeWhile (fun l => (ruleName? l).isNone)
      (front ++ [line]) back
    rw [List.append_assoc, List.singleton_append, ← same, List.length_append,
      List.length_singleton] at counted
    rw [← counted]
    simp only [Option.isNone_iff_eq_none]
  rw [sharedLines]
  generalize (lines.takeWhile (fun l => (ruleName? l).isNone)).length = stop at noRule ⊢
  generalize afterImports lines = rest at parts noImports length ⊢
  constructor
  · intro member
    obtain ⟨before, behind, split⟩ := List.append_of_mem member
    have whole : lines = (imports ++ before) ++
        line :: (behind ++ rest.drop (stop - (lines.length - rest.length))) := by
      rw [List.append_assoc, ← List.cons_append, ← List.append_assoc before, ← split,
        List.take_append_drop, ← parts]
    have short := List.length_take_le (stop - (lines.length - rest.length)) rest
    rw [split, List.length_append, List.length_cons] at short
    refine ⟨_, _, whole, fun l among => ?_, (noRule _ _ whole).2 ?_⟩
    · refine noImports l ?_
      rw [← List.take_append_drop (stop - (lines.length - rest.length)) rest, split]
      simp only [List.mem_cons, List.mem_append] at among ⊢
      tauto
    · rw [List.length_append]
      omega
  · rintro ⟨front, back, whole, noImport, noRuleHere⟩
    have fits := (noRule front back whole).1 noRuleHere
    -- The last import stands in front of the line, for no line from it on is one.
    obtain ⟨between, rfl, behind⟩ : ∃ between, front = imports ++ between ∧
        rest = between ++ line :: back := by
      rcases List.append_eq_append_iff.1 (parts.symm.trans whole) with
        ⟨between, same, behind⟩ | ⟨between, same, behind⟩
      · exact ⟨between, same, behind⟩
      · cases between.eq_nil_or_concat with
        | inl empty =>
          subst empty
          exact ⟨[], by simpa using same.symm, by simpa using behind.symm⟩
        | inr ends =>
          obtain ⟨more, l, rfl⟩ := ends
          refine absurd (noImport l ?_) (last l ?_)
          · rw [behind]
            simp
          · rw [same]
            simp
    rw [List.length_append] at fits
    have early : (between ++ [line]).length ≤ stop - (lines.length - rest.length) := by
      rw [List.length_append, List.length_singleton]
      omega
    have leads : between ++ [line] <+: rest.take (stop - (lines.length - rest.length)) := by
      refine List.prefix_take_iff.2 ⟨⟨back, ?_⟩, early⟩
      rw [behind, List.append_assoc, List.singleton_append]
    exact leads.subset (by simp)

/-- A name is declared on a line behind the last import and before the first rule. -/
def Declares (lines : List String) (name : String) : Prop :=
  ∃ front line back, lines = front ++ line :: back ∧ IsShared front line back ∧
    variableName? line = some name

theorem declares_iff_mem {lines : List String} {name : String} :
    name ∈ (sharedLines lines).filterMap variableName? ↔ Declares lines name := by
  rw [List.mem_filterMap]
  constructor
  · rintro ⟨line, member, named⟩
    obtain ⟨front, back, parts, shared⟩ := mem_sharedLines.1 member
    exact ⟨front, line, back, parts, shared, named⟩
  · rintro ⟨front, line, back, parts, shared, named⟩
    exact ⟨line, mem_sharedLines.2 ⟨front, back, parts, shared⟩, named⟩

/-! ## The variables of the outline -/

theorem vars_addLine (text : String) (t : TokenTree) (line : String) :
    (addLine text t line).vars = t.vars := by
  unfold addLine
  split
  · rfl
  · split <;> rfl

theorem vars_foldl_addLine (text : String) (lines : List String) (t : TokenTree) :
    (lines.foldl (addLine text) t).vars = t.vars := by
  induction lines generalizing t with
  | nil => rfl
  | cons line lines ih => rw [List.foldl_cons, ih, vars_addLine]

theorem vars_foldl_addVariable (token : String → VarToken) (names : List String) (t : TokenTree) :
    (names.foldl (fun t name => t.addVariable (token name)) t).vars =
      (names.map token).foldl (EntityToken.insertNew (·.name)) t.vars := by
  induction names generalizing t with
  | nil => rfl
  | cons name names ih => rw [List.foldl_cons, ih]; rfl

def barelines (text : String) : List String :=
  Text.lines (String.ofList (Text.stripLambdas (Text.stripComments text.toList)))

theorem mem_vars_tree {text name : String} :
    name ∈ (tree text).vars.map (·.name) ↔ Declares (barelines text) name := by
  have start := vars_foldl_addLine text
    (Text.lines (String.ofList (Text.stripComments text.toList))) .empty
  rw [tree]
  rw [vars_foldl_addVariable, start]
  have empty : TokenTree.empty.vars = [] := rfl
  rw [empty, foldl_insertNew_nil, mem_map_firsts, List.map_map]
  have named : ((fun v : VarToken => v.name) ∘ fun name : String =>
      ({ name, span := Text.firstOccurrence? text name } : VarToken)) = id := rfl
  rw [named, List.map_id]
  exact declares_iff_mem

/-! ## Lines and pieces -/

section

variable {a b : String}

theorem importName?_congr (same : Text.trim a = Text.trim b) : importName? a = importName? b := by
  rw [importName?, same, ← importName?]

theorem ruleName?_congr (same : Text.trim a = Text.trim b) : ruleName? a = ruleName? b := by
  rw [ruleName?, same, ← ruleName?]

theorem variableName?_congr (same : Text.trim a = Text.trim b) :
    variableName? a = variableName? b := by
  rw [variableName?, same, ← variableName?]

end

theorem trim_dropReturn (cs : List Char) :
    Text.trim (String.ofList (Text.dropReturn cs)) = Text.trim (String.ofList cs) := by
  rcases Text.dropReturn_cases cs with same | longer
  · rw [same]
  · have blank : ∀ c ∈ ['\r'], Text.isBlank c = true :=
      List.forall_mem_singleton.2 (by decide)
    rw [Text.trim, Text.trim, String.toList_ofList, String.toList_ofList]
    conv_rhs => rw [longer, Text.trimChars_append_blanks _ blank]

theorem declares_map {α : Type} {text : α → String} {as : List α} {name : String} :
    Declares (as.map text) name ↔ ∃ front a back, as = front ++ a :: back ∧
      (∀ x ∈ a :: back, importName? (text x) = none) ∧
      (∀ x ∈ front ++ [a], ruleName? (text x) = none) ∧ variableName? (text a) = some name := by
  constructor
  · rintro ⟨front, line, back, parts, ⟨imports, rules⟩, named⟩
    obtain ⟨front, rest, rfl, rfl, behind⟩ := List.map_eq_append_iff.1 parts
    obtain ⟨a, back, rfl, rfl, rfl⟩ := List.map_eq_cons_iff.1 behind
    refine ⟨front, a, back, rfl, fun x member => ?_, fun x member => ?_, named⟩
    · exact imports _ (List.mem_map_of_mem (f := text) member)
    · refine rules _ ?_
      have among := List.mem_map_of_mem (f := text) member
      rwa [List.map_append] at among
  · rintro ⟨front, a, back, rfl, imports, rules, named⟩
    refine ⟨front.map text, text a, back.map text, by simp, ⟨?_, ?_⟩, named⟩
    · rw [← List.map_cons, List.forall_mem_map]
      exact imports
    · rw [← List.map_singleton, ← List.map_append, List.forall_mem_map]
      exact rules

theorem declares_concat_empty {lines : List String} {name : String} :
    Declares (lines ++ [""]) name ↔ Declares lines name := by
  have noImport : importName? "" = none := rfl
  have noName : variableName? "" = none := rfl
  constructor
  · rintro ⟨front, line, back, parts, ⟨imports, rules⟩, named⟩
    cases back.eq_nil_or_concat with
    | inl none =>
      subst none
      obtain ⟨-, same⟩ := List.append_inj' parts rfl
      rw [← List.head_eq_of_cons_eq same, noName] at named
      cases named
    | inr ends =>
      obtain ⟨back, last, rfl⟩ := ends
      rw [List.concat_eq_append, ← List.cons_append, ← List.append_assoc] at parts
      obtain ⟨rfl, -⟩ := List.append_inj' parts rfl
      refine ⟨front, line, back, rfl, ⟨fun l member => imports l ?_, rules⟩, named⟩
      rw [List.concat_eq_append, ← List.cons_append]
      exact List.mem_append_left _ member
  · rintro ⟨front, line, back, rfl, ⟨imports, rules⟩, named⟩
    refine ⟨front, line, back ++ [""], by simp, ⟨?_, rules⟩, named⟩
    rw [← List.cons_append, List.forall_mem_append]
    exact ⟨imports, List.forall_mem_singleton.2 noImport⟩

theorem declares_lines {cs : List Char} {name : String} :
    Declares (Text.lines (String.ofList cs)) name ↔
      Declares ((pieces cs).map String.ofList) name := by
  obtain ⟨front, last, split⟩ := ((pieces cs).eq_nil_or_concat).resolve_left
    (Text.splitChars_ne_nil _ cs)
  rw [List.concat_eq_append] at split
  have trimmed : Declares ((front.map Text.dropReturn ++ [last]).map String.ofList) name ↔
      Declares ((front ++ [last]).map String.ofList) name := by
    have either : front.map Text.dropReturn ++ [last] =
        (front.map (fun piece => (true, piece)) ++ [(false, last)]).map
          (fun p => if p.1 then Text.dropReturn p.2 else p.2) := by
      simp [Function.comp_def]
    have plain : front ++ [last] =
        (front.map (fun piece => (true, piece)) ++ [(false, last)]).map (·.2) := by
      simp [Function.comp_def]
    have same (p : Bool × List Char) :
        Text.trim (String.ofList (if p.1 then Text.dropReturn p.2 else p.2)) =
          Text.trim (String.ofList p.2) := by
      cases p.1
      · rfl
      · exact trim_dropReturn p.2
    rw [either, plain, List.map_map, List.map_map, declares_map, declares_map]
    simp only [Function.comp_apply, importName?_congr (same _), ruleName?_congr (same _),
      variableName?_congr (same _)]
  rw [Text.lines, String.toList_ofList, Text.lineChars_concat split, split]
  by_cases empty : last = []
  · rw [← trimmed, if_pos empty, empty, List.append_nil, List.map_append]
    exact declares_concat_empty.symm
  · rw [← trimmed, if_neg empty]

/-! ## What the beginning of a line tells -/

section

variable {α : Type} {p : α → Bool} {a : α}

theorem dropWhile_append_cons (other : p a = false) (xs ys : List α) :
    (xs ++ a :: ys).dropWhile p = xs.dropWhile p ++ a :: ys := by
  induction xs with
  | nil => exact List.dropWhile_cons_of_neg (by simp [other])
  | cons x xs ih =>
    rw [List.cons_append]
    by_cases fits : p x = true
    · rw [List.dropWhile_cons_of_pos fits, List.dropWhile_cons_of_pos fits, ih]
    · rw [List.dropWhile_cons_of_neg fits, List.dropWhile_cons_of_neg fits, List.cons_append]

theorem mem_dropWhile_of_other {xs : List α} (member : a ∈ xs) (other : p a = false) :
    a ∈ xs.dropWhile p := by
  obtain ⟨front, back, rfl⟩ := List.append_of_mem member
  rw [dropWhile_append_cons other]
  simp

end

theorem dropStart?_append_bracket {start : List Char} (plain : '[' ∉ start) (cs back : List Char) :
    Text.dropStart? start (cs ++ '[' :: back) =
      (Text.dropStart? start cs).map (· ++ '[' :: back) := by
  induction start generalizing cs with
  | nil => rfl
  | cons p start ih =>
    rw [List.mem_cons, not_or] at plain
    cases cs with
    | nil => exact if_neg (Ne.symm plain.1)
    | cons c cs =>
      rw [List.cons_append, Text.dropStart?, Text.dropStart?, ih plain.2]
      split <;> rfl

theorem toList_trim_bracket (front back : List Char) :
    (Text.trim (String.ofList (front ++ '[' :: back))).toList =
      Text.trimLeft front ++ '[' :: Text.trimRight back := by
  have solid : Text.isBlank '[' = false := by decide
  have right : Text.trimRight (Text.trimLeft front ++ '[' :: back) =
      Text.trimLeft front ++ '[' :: Text.trimRight back := by
    have turned : (Text.trimLeft front ++ '[' :: back).reverse =
        back.reverse ++ '[' :: (Text.trimLeft front).reverse := by simp
    rw [Text.trimRight, turned, dropWhile_append_cons solid, Text.trimRight]
    simp
  rw [Text.trim, String.toList_ofList, String.toList_ofList, Text.trimChars, Text.trimLeft,
    dropWhile_append_cons solid, ← Text.trimLeft, right]

theorem afterStart?_bracket {start : String} (plain : '[' ∉ start.toList)
    (front back : List Char) :
    Text.afterStart? start (Text.trim (String.ofList (front ++ '[' :: back))) =
      (Text.dropStart? start.toList (Text.trimLeft front)).map
        (fun rest => String.ofList (rest ++ '[' :: Text.trimRight back)) := by
  rw [Text.afterStart?, toList_trim_bracket, dropStart?_append_bracket plain, Option.map_map]
  rfl

theorem bracket_mem_trim {s : String} (inside : '[' ∈ s.toList) : '[' ∈ (Text.trim s).toList := by
  have solid : Text.isBlank '[' = false := by decide
  rw [Text.trim, String.toList_ofList, Text.trimChars, Text.trimRight, List.mem_reverse]
  refine mem_dropWhile_of_other (List.mem_reverse.2 ?_) solid
  exact mem_dropWhile_of_other inside solid

theorem bracket_mem_dropRight {s : String} (inside : '[' ∈ s.toList) :
    '[' ∈ (Text.dropRight (· == ';') s).toList := by
  rw [Text.dropRight, String.toList_ofList, List.mem_reverse]
  exact mem_dropWhile_of_other (List.mem_reverse.2 inside) rfl

theorem bracket_mem_unquote {s : String} (inside : '[' ∈ s.toList) :
    '[' ∈ (Text.unquote s).toList := by
  have trimmed : '[' ∈ Text.trimChars s.toList := by
    have kept := bracket_mem_trim inside
    rwa [Text.trim, String.toList_ofList] at kept
  have layer (quote : Char) (other : '[' ≠ quote) : ∀ inner ∈ (Text.dropStart? [quote]
      (Text.trimChars s.toList)).bind (Text.dropEnd? [quote]), '[' ∈ inner := by
    intro inner found
    obtain ⟨rest, first, last⟩ := Option.bind_eq_some_iff.1 found
    obtain ⟨turned, drop, rfl⟩ := Option.map_eq_some_iff.1 last
    have whole := Syntax.Scan.append_of_dropStart? first
    have ending := Syntax.Scan.append_of_dropStart? drop
    rw [← whole] at trimmed
    have inRest : '[' ∈ rest.reverse := by simpa [other] using trimmed
    rw [← ending] at inRest
    simpa [other] using inRest
  rw [Text.unquote, String.toList_ofList]
  dsimp only
  cases double : (Text.dropStart? ['"'] (Text.trimChars s.toList)).bind (Text.dropEnd? ['"']) with
  | some inner => exact layer '"' (by decide) inner double
  | none =>
    rw [Option.orElse_none]
    cases single : (Text.dropStart? ['\''] (Text.trimChars s.toList)).bind
        (Text.dropEnd? ['\'']) with
    | some inner => exact layer '\'' (by decide) inner single
    | none => exact trimmed

theorem nonempty?_ne_none {s : String} (inside : '[' ∈ s.toList) : nonempty? s ≠ none := by
  rw [nonempty?]
  split
  · next empty =>
    rw [String.isEmpty_iff.1 empty] at inside
    cases inside
  · simp

theorem importName?_bracket (front back : List Char) :
    importName? (String.ofList (front ++ '[' :: back)) = none ↔
      ∀ rest ∈ Text.dropStart? "import".toList (Text.trimLeft front),
        ((rest ++ ['[']).head?.map Text.isBlank).getD false = false := by
  rw [importName?, afterStart?_bracket (by decide)]
  cases Text.dropStart? "import".toList (Text.trimLeft front) with
  | none => simp
  | some rest =>
    have head : (rest ++ '[' :: Text.trimRight back).head? = (rest ++ ['[']).head? := by
      cases rest <;> rfl
    have named : nonempty? (Text.trim (Text.dropRight (· == ';') (Text.trim (String.ofList
        (rest ++ '[' :: Text.trimRight back))))) ≠ none :=
      nonempty?_ne_none (bracket_mem_trim (bracket_mem_dropRight (bracket_mem_trim (by simp))))
    simp only [Option.map_some, Option.bind_eq_bind, Option.bind_some, String.toList_ofList, head,
      Option.mem_def, Option.some_inj, forall_eq']
    split
    · next blank =>
      rw [blank]
      exact iff_of_false named (by simp)
    · next plain => simpa using plain

theorem ruleName?_bracket (front back : List Char) :
    ruleName? (String.ofList (front ++ '[' :: back)) = none ↔
      ∀ rest ∈ Text.dropStart? "rule".toList (Text.trimLeft front),
        ((rest ++ ['[']).head?.map
          (fun c => Text.isBlank c || c == '"' || c == '\'')).getD false = false := by
  rw [ruleName?, afterStart?_bracket (by decide)]
  cases Text.dropStart? "rule".toList (Text.trimLeft front) with
  | none => simp
  | some rest =>
    have head : (rest ++ '[' :: Text.trimRight back).head? = (rest ++ ['[']).head? := by
      cases rest <;> rfl
    have named : nonempty? (Text.unquote (String.ofList (rest ++ '[' :: Text.trimRight back))) ≠
        none := nonempty?_ne_none (bracket_mem_unquote (by simp))
    simp only [Option.map_some, Option.bind_eq_bind, Option.bind_some, String.toList_ofList, head,
      Option.mem_def, Option.some_inj, forall_eq']
    split
    · next follows =>
      rw [follows]
      exact iff_of_false named (by simp)
    · next plain => simpa using plain

/-- What stands behind the keyword of a line that declares. -/
def declared? (line : String) : Option String :=
  (Text.afterStart? "val " (Text.trim line)).orElse
    (fun _ => Text.afterStart? "var " (Text.trim line))

theorem variableName?_eq (line : String) : variableName? line = (declared? line).bind (fun rest =>
    (Text.words (String.ofList (rest.toList.takeWhile (· != '=')))).getLast?) := rfl

theorem declared?_bracket (front back : List Char) :
    declared? (String.ofList (front ++ '[' :: back)) =
      ((Text.dropStart? "val ".toList (Text.trimLeft front)).orElse (fun _ =>
        Text.dropStart? "var ".toList (Text.trimLeft front))).map
          (fun rest => String.ofList (rest ++ '[' :: Text.trimRight back)) := by
  rw [declared?, afterStart?_bracket (by decide), afterStart?_bracket (by decide)]
  cases Text.dropStart? "val ".toList (Text.trimLeft front) <;> rfl

theorem variableName?_bracket {front : List Char} (assigned : '=' ∈ front)
    (back back' : List Char) : variableName? (String.ofList (front ++ '[' :: back)) =
      variableName? (String.ofList (front ++ '[' :: back')) := by
  rw [variableName?_eq, variableName?_eq, declared?_bracket, declared?_bracket]
  cases found : (Text.dropStart? "val ".toList (Text.trimLeft front)).orElse (fun _ =>
      Text.dropStart? "var ".toList (Text.trimLeft front)) with
  | none => rfl
  | some rest =>
    have parts : ∃ start : String, '=' ∉ start.toList ∧
        start.toList ++ rest = Text.trimLeft front := by
      cases first : Text.dropStart? "val ".toList (Text.trimLeft front) with
      | some other =>
        rw [first] at found
        obtain rfl := Option.some.inj found
        exact ⟨"val ", by decide, Syntax.Scan.append_of_dropStart? first⟩
      | none =>
        rw [first] at found
        exact ⟨"var ", by decide, Syntax.Scan.append_of_dropStart? found⟩
    obtain ⟨start, plain, whole⟩ := parts
    have inRest : '=' ∈ rest := by
      have kept : '=' ∈ Text.trimLeft front := mem_dropWhile_of_other assigned (by decide)
      rw [← whole, List.mem_append] at kept
      exact kept.resolve_left plain
    have cut (back : List Char) : (rest ++ back).takeWhile (· != '=') =
        rest.takeWhile (· != '=') := by
      obtain ⟨before, behind, rfl⟩ := List.append_of_mem inRest
      rw [List.append_assoc, List.cons_append, List.takeWhile_append, List.takeWhile_append,
        List.takeWhile_cons_of_neg (by simp), List.takeWhile_cons_of_neg (by simp)]
    simp only [Option.map_some, Option.bind_some, String.toList_ofList, cut]

section

variable {line shown : List Char} (same : SameToBracket line shown)

include same

theorem importName?_shown :
    importName? (String.ofList shown) = none ↔ importName? (String.ofList line) = none := by
  rcases same with rfl | ⟨front, back, back', rfl, rfl⟩
  · exact Iff.rfl
  · rw [importName?_bracket, importName?_bracket]

theorem ruleName?_shown :
    ruleName? (String.ofList shown) = none ↔ ruleName? (String.ofList line) = none := by
  rcases same with rfl | ⟨front, back, back', rfl, rfl⟩
  · exact Iff.rfl
  · rw [ruleName?_bracket, ruleName?_bracket]

theorem declared?_shown : (declared? (String.ofList shown)).isSome =
    (declared? (String.ofList line)).isSome := by
  rcases same with rfl | ⟨front, back, back', rfl, rfl⟩
  · rfl
  · rw [declared?_bracket, declared?_bracket, Option.isSome_map, Option.isSome_map]

end

theorem mem_vars_tree_blocks {text name : String} :
    name ∈ (tree text).vars.map (·.name) ↔
      ∃ front b back, blocksOf (Text.stripComments text.toList) = front ++ b :: back ∧
        (∀ x ∈ b :: back, importName? (String.ofList x.line) = none) ∧
        (∀ x ∈ front ++ [b], ruleName? (String.ofList x.line) = none) ∧
        variableName? (String.ofList b.shown) = some name := by
  rw [mem_vars_tree, barelines, declares_lines, Text.pieces_stripLambdas, List.map_map,
    declares_map]
  simp only [Function.comp_apply]
  refine exists_congr fun front => exists_congr fun b => exists_congr fun back =>
    and_congr_right fun whole => ?_
  have same (x : Block) (among : x ∈ front ++ b :: back) : SameToBracket x.line x.shown :=
    Text.sameToBracket_of_mem (whole ▸ among)
  refine and_congr (forall₂_congr fun x among => ?_) (and_congr (forall₂_congr fun x among => ?_)
    Iff.rfl)
  · exact importName?_shown (same x (List.mem_append_right _ among))
  · refine ruleName?_shown (same x ?_)
    simp only [List.mem_append, List.mem_cons, List.not_mem_nil, or_false] at among ⊢
    tauto

/-! ## Variables outside of brackets -/

/-- A name is declared on a line outside of all brackets, behind the last import and before the
first rule. -/
def DeclaredOutside (text : List Char) (name : String) : Prop :=
  ∃ front line back, pieces text = front ++ line :: back ∧
    IsShared (front.map String.ofList) (String.ofList line) (back.map String.ofList) ∧
    variableName? (String.ofList line) = some name ∧ Text.depthBehind (Text.joined front) = 0

/-- Every variable of the outline is declared outside of all brackets, behind the last import and
before the first rule. -/
def KeepsVariables (text : List Char) (t : TokenTree) : Prop :=
  ∀ v ∈ t.vars, DeclaredOutside text v.name

/-- Bodies end at their own brackets, no import and no rule begins inside of one, and a line that
declares outside of all brackets has its equals sign before its first bracket. -/
structure BodiesFit (text : List Char) : Prop extends Text.BodiesEnd text where
  inner : ∀ p ∈ withBefore [] (pieces text), 0 < Text.depthBehind (Text.joined p.1) →
    importName? (String.ofList p.2) = none ∧ ruleName? (String.ofList p.2) = none
  named : ∀ p ∈ withBefore [] (pieces text), Text.depthBehind (Text.joined p.1) = 0 →
    (declared? (String.ofList p.2)).isSome → ∀ q ∈ withBefore [] p.2, q.2 = '[' → '=' ∈ q.1

namespace BodiesFit

variable {text : List Char} (fit : BodiesFit text)

include fit

theorem depth_of_flags {front back : List (Bool × List Char)} {outside : Bool} {line : List Char}
    (whole : Text.flags (blocksOf text) = front ++ (outside, line) :: back) :
    pieces text = front.map (·.2) ++ line :: back.map (·.2) ∧
      (Text.depthBehind (Text.joined (front.map (·.2))) == 0) = outside := by
  have flags := fit.flags_eq
  have split : pieces text = front.map (·.2) ++ line :: back.map (·.2) := by
    have lines : (Text.lineFlags {} [] (pieces text)).map (·.2) = pieces text := by
      rw [Text.lineFlags, List.map_map]
      exact map_snd_withBefore [] (pieces text)
    rw [← lines, ← flags, whole]
    simp
  refine ⟨split, ?_⟩
  rw [whole, split, Text.lineFlags, withBefore_append, List.map_append] at flags
  obtain ⟨-, here⟩ := List.append_inj flags (by simp)
  exact (congrArg Prod.fst (List.cons.inj here).1).symm

theorem plain_of_hidden {b : Block} (member : b ∈ blocksOf text) {line : List Char}
    (hidden : line ∈ b.hidden) :
    importName? (String.ofList line) = none ∧ ruleName? (String.ofList line) = none := by
  have flagged : (false, line) ∈ Text.flags (blocksOf text) := by
    refine List.mem_flatMap.2 ⟨b, member, List.mem_cons_of_mem _ ?_⟩
    exact List.mem_map_of_mem (f := fun l => (false, l)) hidden
  obtain ⟨front, back, whole⟩ := List.append_of_mem flagged
  obtain ⟨split, inside⟩ := fit.depth_of_flags whole
  refine fit.inner (front.map (·.2), line) (mem_withBefore.2 ⟨_, _, split, rfl⟩) ?_
  exact Nat.pos_of_ne_zero (ne_of_beq_false inside)

theorem variableName?_shown {front back : List (List Char)} {line shown : List Char}
    (split : pieces text = front ++ line :: back)
    (outside : Text.depthBehind (Text.joined front) = 0) (same : SameToBracket line shown) :
    variableName? (String.ofList shown) = variableName? (String.ofList line) := by
  cases declares : (declared? (String.ofList line)).isSome with
  | false =>
    have neither := declared?_shown same
    rw [declares] at neither
    rw [Option.isSome_eq_false_iff, Option.isNone_iff_eq_none] at declares neither
    rw [variableName?_eq, variableName?_eq, declares, neither]
  | true =>
    rcases same with rfl | ⟨start, rest, rest', rfl, rfl⟩
    · rfl
    · refine variableName?_bracket ?_ rest' rest
      have here : (front, start ++ '[' :: rest) ∈ withBefore [] (pieces text) :=
        mem_withBefore.2 ⟨front, back, split, rfl⟩
      have bracket : (start, '[') ∈ withBefore [] (start ++ '[' :: rest) :=
        mem_withBefore.2 ⟨start, rest, rfl, rfl⟩
      exact fit.named _ here outside declares _ bracket rfl

end BodiesFit

theorem exists_block_of_flags {bs : List Block} {front back : List (Bool × List Char)}
    {line : List Char} (whole : Text.flags bs = front ++ (true, line) :: back) :
    ∃ before b behind, bs = before ++ b :: behind ∧ b.line = line ∧
      front = Text.flags before ∧
      back = b.hidden.map (fun l => (false, l)) ++ Text.flags behind := by
  induction bs generalizing front with
  | nil => simp [Text.flags] at whole
  | cons b bs ih =>
    have first : Text.flags (b :: bs) =
        (true, b.line) :: (b.hidden.map (fun l => (false, l)) ++ Text.flags bs) := rfl
    rw [first] at whole
    cases front with
    | nil =>
      obtain ⟨same, rest⟩ := List.cons.inj whole
      exact ⟨[], b, bs, rfl, congrArg Prod.snd same, rfl, rest.symm⟩
    | cons f front =>
      obtain ⟨rfl, rest⟩ := List.cons.inj whole
      -- No hidden line is a first one, so the line stands behind the hidden lines of the block.
      rcases List.append_eq_append_iff.1 rest with ⟨more, rfl, later⟩ | ⟨more, split, later⟩
      · obtain ⟨before, c, behind, rfl, named, rfl, behindIs⟩ := ih later
        exact ⟨b :: before, c, behind, rfl, named, rfl, behindIs⟩
      · cases more with
        | nil =>
          have here : Text.flags bs = [] ++ (true, line) :: back := later.symm
          obtain ⟨before, c, behind, rfl, named, alone, behindIs⟩ := ih here
          refine ⟨b :: before, c, behind, rfl, named, ?_, behindIs⟩
          rw [List.append_nil] at split
          rw [Text.flags, List.flatMap_cons, ← Text.flags, ← alone, List.append_nil, split]
        | cons m more =>
          obtain ⟨rfl, -⟩ := List.cons.inj later
          have among : (true, line) ∈ b.hidden.map (fun l => (false, l)) := by simp [split]
          simp at among

namespace BodiesFit

variable {text : List Char} (fit : BodiesFit text)

include fit

theorem depth_of_block {front back : List Block} {b : Block}
    (whole : blocksOf text = front ++ b :: back) :
    pieces text = front.flatMap Block.lines ++ b.line :: (b.hidden ++ back.flatMap Block.lines) ∧
      Text.depthBehind (Text.joined (front.flatMap Block.lines)) = 0 := by
  have flagged : Text.flags (blocksOf text) = Text.flags front ++ (true, b.line) ::
      (b.hidden.map (fun l => (false, l)) ++ Text.flags back) := by
    rw [whole]
    simp [Text.flags]
  have depth := (fit.depth_of_flags flagged).2
  rw [Text.map_snd_flags] at depth
  refine ⟨?_, beq_iff_eq.1 depth⟩
  rw [Text.pieces_eq, whole, List.flatMap_append, List.flatMap_cons]
  rfl

theorem exists_block {front back : List (List Char)} {line : List Char}
    (split : pieces text = front ++ line :: back)
    (outside : Text.depthBehind (Text.joined front) = 0) :
    ∃ before b behind, blocksOf text = before ++ b :: behind ∧ b.line = line ∧
      front = before.flatMap Block.lines ∧ back = b.hidden ++ behind.flatMap Block.lines := by
  have flags := fit.flags_eq
  have flagged : (Text.depthFrom {} (Text.joined front) == 0) = true := beq_iff_eq.2 outside
  rw [split, Text.lineFlags, withBefore_append, List.map_append, withBefore, List.map_cons,
    List.nil_append, flagged] at flags
  obtain ⟨before, b, behind, whole, same, frontIs, backIs⟩ := exists_block_of_flags flags
  refine ⟨before, b, behind, whole, same, ?_, ?_⟩
  · rw [← Text.map_snd_flags, ← frontIs, List.map_map]
    exact (map_snd_withBefore [] front).symm
  · have lines := congrArg (List.map (·.2)) backIs
    rw [List.map_append, Text.map_snd_flags, List.map_map, List.map_map] at lines
    have hidden : b.hidden.map ((·.2) ∘ fun l => (false, l)) = b.hidden := List.map_id _
    rw [hidden] at lines
    rw [← lines]
    exact (map_snd_withBefore _ back).symm

theorem forall_importName? {bs : List Block} (among : bs ⊆ blocksOf text) :
    (∀ l ∈ bs.flatMap Block.lines, importName? (String.ofList l) = none) ↔
      ∀ b ∈ bs, importName? (String.ofList b.line) = none := by
  simp only [List.forall_mem_flatMap, Block.lines, List.forall_mem_cons]
  exact forall₂_congr fun b member =>
    and_iff_left fun l hidden => (fit.plain_of_hidden (among member) hidden).1

theorem forall_ruleName? {bs : List Block} (among : bs ⊆ blocksOf text) :
    (∀ l ∈ bs.flatMap Block.lines, ruleName? (String.ofList l) = none) ↔
      ∀ b ∈ bs, ruleName? (String.ofList b.line) = none := by
  simp only [List.forall_mem_flatMap, Block.lines, List.forall_mem_cons]
  exact forall₂_congr fun b member =>
    and_iff_left fun l hidden => (fit.plain_of_hidden (among member) hidden).2

theorem isShared_iff {front back : List Block} {b : Block}
    (whole : blocksOf text = front ++ b :: back) :
    IsShared ((front.flatMap Block.lines).map String.ofList) (String.ofList b.line)
      ((b.hidden ++ back.flatMap Block.lines).map String.ofList) ↔
      (∀ x ∈ b :: back, importName? (String.ofList x.line) = none) ∧
        ∀ x ∈ front ++ [b], ruleName? (String.ofList x.line) = none := by
  have behind : b :: back ⊆ blocksOf text := by
    rw [whole]
    exact List.subset_append_right _ _
  have before : front ⊆ blocksOf text := by
    rw [whole]
    exact List.subset_append_left _ _
  rw [← fit.forall_importName? behind, List.forall_mem_append, ← fit.forall_ruleName? before,
    List.forall_mem_singleton]
  constructor
  · rintro ⟨imports, rules⟩
    rw [← List.map_cons, List.forall_mem_map] at imports
    rw [List.forall_mem_append, List.forall_mem_map, List.forall_mem_singleton] at rules
    exact ⟨imports, rules⟩
  · rintro ⟨imports, rules⟩
    refine ⟨?_, ?_⟩
    · rw [← List.map_cons, List.forall_mem_map]
      exact imports
    · rw [List.forall_mem_append, List.forall_mem_map, List.forall_mem_singleton]
      exact rules

end BodiesFit

/-- Where bodies end at their own brackets, the variables are the names that are declared outside
of all brackets, behind the last import and before the first rule. -/
theorem BodiesFit.mem_vars_tree {text name : String}
    (fit : BodiesFit (Text.stripComments text.toList)) :
    name ∈ (tree text).vars.map (·.name) ↔
      DeclaredOutside (Text.stripComments text.toList) name := by
  rw [mem_vars_tree_blocks]
  generalize Text.stripComments text.toList = text at fit ⊢
  constructor
  · rintro ⟨front, b, back, whole, imports, rules, named⟩
    obtain ⟨split, outside⟩ := fit.depth_of_block whole
    have here : b ∈ blocksOf text := by
      rw [whole]
      exact List.mem_append_right _ List.mem_cons_self
    refine ⟨_, _, _, split, (fit.isShared_iff whole).2 ⟨imports, rules⟩, ?_, outside⟩
    have shown := fit.variableName?_shown split outside (Text.sameToBracket_of_mem here)
    exact shown.symm.trans named
  · rintro ⟨front, line, back, split, shared, named, outside⟩
    obtain ⟨before, b, behind, whole, rfl, rfl, rfl⟩ := fit.exists_block split outside
    have here : b ∈ blocksOf text := by
      rw [whole]
      exact List.mem_append_right _ List.mem_cons_self
    obtain ⟨imports, rules⟩ := (fit.isShared_iff whole).1 shared
    have shown := fit.variableName?_shown split outside (Text.sameToBracket_of_mem here)
    exact ⟨before, b, behind, whole, imports, rules, shown.trans named⟩

/-! ## Bodies in bodies -/

/-- A body with a body in it. -/
def nested : Document :=
  { language := "openhab", file := "a.rules",
    text := "val f = [ a |\n  val g = [ b | 1 ]\n  var inner = 2\n]\n" }

/-- A body in front of a rule, each with a declaration in it. -/
def bracketed : Document :=
  { language := "openhab", file := "a.rules",
    text := "import a.b\nval f = [ x |\n  val inner = x\n]\nrule \"R\"\n  var local = 1\nend" }

theorem not_keepsVariables : ∃ t, Analyzer.rules.read nested {} = .ok t ∧
    ¬ KeepsVariables (Text.stripComments nested.text.toList) t := by
  have found : "inner" ∈ (tree nested.text).vars.map (·.name) := by decide +kernel
  have inside : ∀ p ∈ withBefore [] (pieces (Text.stripComments nested.text.toList)),
      Text.depthBehind (Text.joined p.1) = 0 → variableName? (String.ofList p.2) ≠ some "inner" := by
    decide +kernel
  refine ⟨tree nested.text, rfl, fun keeps => ?_⟩
  obtain ⟨v, listed, named⟩ := List.mem_map.1 found
  obtain ⟨front, line, back, split, -, declared, outside⟩ := keeps v listed
  exact inside (front, line) (mem_withBefore.2 ⟨front, back, split, rfl⟩) outside
    (declared.trans (congrArg some named))

end CodeOutline.Analysis.Rules

namespace CodeOutline.Analyzer

open Analysis.Rules
open Text (pieces Block blocksOf SameToBracket)

/-- The variables in the outline of rules are the names that are declared behind the last import and
before the first rule when each body is hidden from its opening bracket to the first closing bracket
behind a blank. Where bodies end at their own brackets these are the names that are declared
outside of all brackets. -/
theorem rules_variables (d : Document) (settings : LanguageSettings) :
    ∃ t, Analyzer.rules.read d settings = .ok t ∧
      pieces (Text.stripComments d.text.toList) =
        (blocksOf (Text.stripComments d.text.toList)).flatMap Block.lines ∧
      (∀ b ∈ blocksOf (Text.stripComments d.text.toList), SameToBracket b.line b.shown) ∧
      (∀ name, name ∈ t.vars.map (·.name) ↔
        ∃ front b back, blocksOf (Text.stripComments d.text.toList) = front ++ b :: back ∧
          (∀ x ∈ b :: back, importName? (String.ofList x.line) = none) ∧
          (∀ x ∈ front ++ [b], ruleName? (String.ofList x.line) = none) ∧
          variableName? (String.ofList b.shown) = some name) ∧
      (BodiesFit (Text.stripComments d.text.toList) → ∀ name,
        name ∈ t.vars.map (·.name) ↔ DeclaredOutside (Text.stripComments d.text.toList) name) :=
  ⟨tree d.text, rfl, Text.pieces_eq _, fun _ => Text.sameToBracket_of_mem,
    fun _ => mem_vars_tree_blocks, fun fit _ => fit.mem_vars_tree⟩

theorem rules_variables_bracketed : ∃ t, Analyzer.rules.read bracketed {} = .ok t ∧
    BodiesFit (Text.stripComments bracketed.text.toList) ∧ "f" ∈ t.vars.map (·.name) ∧
    "inner" ∉ t.vars.map (·.name) ∧ "local" ∉ t.vars.map (·.name) := by
  obtain ⟨t, ok, -, -, -, fitting⟩ := rules_variables bracketed {}
  have fit : BodiesFit (Text.stripComments bracketed.text.toList) :=
    ⟨by decide +kernel, by decide +kernel, by decide +kernel⟩
  have outside : ∀ p ∈ withBefore [] (pieces (Text.stripComments bracketed.text.toList)),
      Text.depthBehind (Text.joined p.1) = 0 →
        variableName? (String.ofList p.2) ≠ some "inner" := by
    decide +kernel
  have early : ∀ p ∈ withBefore [] (pieces (Text.stripComments bracketed.text.toList)),
      (∀ l ∈ p.1 ++ [p.2], ruleName? (String.ofList l) = none) →
        variableName? (String.ofList p.2) ≠ some "local" := by
    decide +kernel
  refine ⟨t, ok, fit, (fitting fit _).2 ?_, mt (fitting fit _).1 ?_, mt (fitting fit _).1 ?_⟩
  · exact ⟨["import a.b".toList], "val f = [ x |".toList, ["  val inner = x".toList, "]".toList,
      "rule \"R\"".toList, "  var local = 1".toList, "end".toList], by decide +kernel,
      ⟨by decide +kernel, by decide +kernel⟩, by decide +kernel, by decide +kernel⟩
  · rintro ⟨front, line, back, split, -, named, top⟩
    exact outside (front, line) (mem_withBefore.2 ⟨front, back, split, rfl⟩) top named
  · rintro ⟨front, line, back, split, ⟨-, rules⟩, named, -⟩
    refine early (front, line) (mem_withBefore.2 ⟨front, back, split, rfl⟩) (fun l member => ?_)
      named
    refine rules _ ?_
    have among := List.mem_map_of_mem (f := String.ofList) member
    rwa [List.map_append] at among

end CodeOutline.Analyzer
