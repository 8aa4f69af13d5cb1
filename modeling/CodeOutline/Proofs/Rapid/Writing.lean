import CodeOutline.Analysis.Rapid
import CodeOutline.Proofs.Name.Splitting
import CodeOutline.Proofs.Syntax.Scanning
import CodeOutline.Proofs.Text.Listings

/-!
The declarations of robot programs as they are written, and how a line is recognized as the
declaration that is written on it. Names and types may be any identifiers, also those that spell a
keyword of the language.
-/

set_option autoImplicit false

namespace CodeOutline.Analysis.Rapid

/-- A name or a type of a program. -/
abbrev Identifier := {s : String // Name.IsIdentifier s}

namespace Source

structure Argument where
  type : Identifier
  name : Identifier

/-- A function when it has a type, else a procedure. -/
structure Routine where
  isLocal : Bool := false
  type : Option Identifier := none
  name : Identifier
  arguments : List Argument := []

/-- What is written for one argument. -/
def Argument.chars (a : Argument) : List Char := a.type.1.toList ++ ' ' :: a.name.1.toList

namespace Routine

variable (r : Routine)

def keywords : List Char :=
  (if r.isLocal then "LOCAL ".toList else []) ++ (if r.type.isSome then "FUNC" else "PROC").toList

/-- The type, if there is one, and the name. -/
def bodyChars : List Char :=
  r.type.elim [] (fun type => type.1.toList ++ [' ']) ++ r.name.1.toList

def argumentChars : List Char := ", ".toList.intercalate (r.arguments.map Argument.chars)

def chars : List Char :=
  r.keywords ++ ' ' :: (r.bodyChars ++ '(' :: (r.argumentChars ++ [')']))

end Routine

/-- A keyword and the name behind it. -/
def marked (keyword : String) (name : Identifier) : List Char :=
  keyword.toList ++ ' ' :: name.1.toList

/-- What is declared on one line. -/
inductive Entry
  | module (name : Identifier)
  | record (name : Identifier)
  | routine (r : Routine)
  | trap (name : Identifier)

namespace Entry

/-- What is written for a declaration. -/
def chars : Entry → List Char
  | .module name => marked "MODULE" name
  | .record name => marked "RECORD" name
  | .routine r => r.chars
  | .trap name => marked "TRAP" name

/-- What the line is recognized as. -/
def declaration : Entry → Declaration
  | .module name => .module name
  | .record name => .record name
  | .routine r => .routine (r.type.map (·.1)) r.name (String.ofList r.argumentChars)
  | .trap name => .trap none name

end Entry

/-! Names and types -/

section Body

variable (name : Identifier)

theorem isWordChar_of_identifier : ∀ c ∈ name.1.toList, isWordChar c = true := by
  intro c member
  rcases name.2.all c member with fits | rfl
  · simp only [Char.isAlphanum, Bool.or_eq_true] at fits
    simp only [isWordChar, Text.isLetter, Bool.or_eq_true]
    rcases fits with letter | digit
    · exact .inl (.inl (.inl letter))
    · exact .inl (.inr digit)
  · decide

theorem exists_identifier_cons : ∃ c cs, name.1.toList = c :: cs ∧ Text.isBlank c = false := by
  obtain ⟨c, cs, whole, -⟩ := name.2
  exact ⟨c, cs, whole, name.2.solid c (by rw [whole]; exact List.mem_cons_self)⟩

theorem isEmpty_identifier : name.1.toList.isEmpty = false := by
  simpa [List.isEmpty_iff] using name.2.ne_empty

theorem solid_getLast?_identifier (front : List Char) :
    ∀ c ∈ (front ++ name.1.toList).getLast?, Text.isBlank c = false := by
  intro c last
  have filled : name.1.toList ≠ [] := by simpa using name.2.ne_empty
  rw [List.getLast?_append_of_ne_nil _ filled] at last
  exact name.2.solid c (List.mem_of_getLast? last)

theorem typeAndName_name : typeAndName name.1.toList = (none, name.1) := by
  have word : name.1.toList.takeWhile isWordChar = name.1.toList :=
    List.takeWhile_eq_self_iff.2 (isWordChar_of_identifier name)
  obtain ⟨c, cs, whole, -⟩ := exists_identifier_cons name
  rw [typeAndName, word, List.drop_length, whole]
  simp only [← whole, name.2.trim_toList, String.ofList_toList]

theorem typeAndName_type (type : Identifier) :
    typeAndName (type.1.toList ++ ' ' :: name.1.toList) = (some type.1, name.1) := by
  have word : (type.1.toList ++ ' ' :: name.1.toList).takeWhile isWordChar = type.1.toList := by
    rw [List.takeWhile_append_of_pos (isWordChar_of_identifier type),
      List.takeWhile_cons_of_neg (by decide), List.append_nil]
  have blank : Text.isBlank ' ' = true := by decide
  obtain ⟨c, cs, whole, -⟩ := exists_identifier_cons type
  obtain ⟨d, ds, whole', -⟩ := exists_identifier_cons name
  rw [typeAndName, word, List.drop_left, whole, whole']
  simp only [blank, if_true, ← whole', ← whole, name.2.trim_toList, String.ofList_toList]

end Body

/-! Arguments -/

namespace Argument

variable (a : Argument)

/-- The token of an argument in an outline. -/
def token : VarToken := { name := a.name, type := some a.type.1 }

theorem not_mem_chars {c : Char} (apart : c.isAlphanum = false) (other : c ≠ '_')
    (solid : c ≠ ' ') : c ∉ a.chars := by
  simp only [chars, List.mem_append, List.mem_cons, not_or]
  exact ⟨a.type.2.not_mem apart other, solid, a.name.2.not_mem apart other⟩

theorem trimChars_chars : Text.trimChars a.chars = a.chars := by
  obtain ⟨c, cs, whole, solid⟩ := exists_identifier_cons a.type
  refine Text.trimChars_of_ends ?first ?last
  case first =>
    intro d head
    rw [chars, whole] at head
    obtain rfl := Option.some.inj head
    exact solid
  case last =>
    rw [chars, List.append_cons]
    exact solid_getLast?_identifier a.name _

theorem words_chars : Text.words (String.ofList a.chars) = [a.type.1, a.name.1] := by
  have blank : Text.isBlank ' ' = true := by decide
  have pieces : Text.splitChars Text.isBlank a.chars = [a.type.1.toList, a.name.1.toList] := by
    rw [chars, Text.splitChars_append_sep _ _ blank, Text.splitChars_of_others a.type.2.solid,
      Text.splitChars_of_others a.name.2.solid]
    rfl
  have kept : [a.type.1.toList, a.name.1.toList].filter (fun piece => !piece.isEmpty) =
      [a.type.1.toList, a.name.1.toList] := by
    refine List.filter_eq_self.2 ?_
    simpa using ⟨a.type.2.ne_empty, a.name.2.ne_empty⟩
  rw [Text.words, Text.wordChars, String.toList_ofList, pieces, kept]
  simp

end Argument

theorem arguments_argumentChars (r : Routine) :
    arguments (String.ofList r.argumentChars) = r.arguments.map Argument.token := by
  have plain : ∀ part ∈ r.arguments.map (fun a => String.ofList a.chars),
      part ≠ "" ∧ ',' ∉ part.toList ∧ Text.trim part = part := by
    intro part member
    obtain ⟨a, -, rfl⟩ := List.mem_map.1 member
    rw [Text.trim, String.toList_ofList, a.trimChars_chars]
    exact ⟨by simp [Argument.chars], a.not_mem_chars (by decide) (by decide) (by decide), rfl⟩
  have whole : String.ofList r.argumentChars =
      ", ".intercalate (r.arguments.map (fun a => String.ofList a.chars)) := by
    rw [← String.toList_inj, String.toList_intercalate, List.map_map]
    simp [Routine.argumentChars, Function.comp_def]
  rw [arguments, whole, Text.trim_splitAt_commas plain, List.map_map]
  refine List.map_congr_left (fun a _ => ?_)
  simp [Argument.words_chars, Argument.token]

/-! Lines -/

theorem not_mem_bodyChars (r : Routine) {c : Char} (apart : c.isAlphanum = false)
    (other : c ≠ '_') (solid : c ≠ ' ') : c ∉ r.bodyChars := by
  unfold Routine.bodyChars
  cases r.type with
  | none => exact r.name.2.not_mem apart other
  | some type =>
    simp only [Option.elim_some, List.mem_append, List.mem_singleton, not_or]
    exact ⟨⟨type.2.not_mem apart other, solid⟩, r.name.2.not_mem apart other⟩

theorem callParts?_chars (r : Routine) :
    callParts? (r.bodyChars ++ '(' :: (r.argumentChars ++ [')'])) =
      some (r.bodyChars, r.argumentChars) := by
  have absent : '(' ∉ r.bodyChars := not_mem_bodyChars r (by decide) (by decide) (by decide)
  have ends : Text.dropEnd? [')'] (r.argumentChars ++ [')']) = some r.argumentChars := by
    rw [Text.dropEnd?, List.reverse_append, List.reverse_singleton, List.singleton_append,
      Text.dropStart?_singleton, if_pos rfl, Option.map_some, List.reverse_reverse]
  rw [callParts?, Text.cutFirst?_append absent]
  simp [ends]

theorem typeAndName_bodyChars (r : Routine) :
    typeAndName r.bodyChars = (r.type.map (·.1), r.name.1) := by
  unfold Routine.bodyChars
  cases r.type with
  | none => exact typeAndName_name r.name
  | some type =>
    rw [Option.elim_some, List.append_assoc]
    exact typeAndName_type r.name type

theorem afterRoutineWord?_keywords (r : Routine) (rest : List Char) :
    afterRoutineWord? (r.keywords ++ ' ' :: rest) = some (' ' :: rest) := by
  unfold Routine.keywords
  cases r.isLocal <;> cases r.type.isSome <;> rfl

theorem dropBlank_space (rest : List Char) : dropBlank (' ' :: rest) = rest := rfl

section First

variable {c : Char} {cs : List Char} (first : cs.head? = some c)

include first

theorem dropStart?_of_head (keyword : List Char) (other : keyword.head? ≠ some c)
    (filled : keyword ≠ []) : Text.dropStart? keyword cs = none := by
  obtain ⟨d, keyword, rfl⟩ := List.exists_cons_of_ne_nil filled
  obtain ⟨cs, rfl⟩ := List.head?_eq_some_iff.1 first
  have apart : d ≠ c := fun same => other (congrArg some same)
  rw [Text.dropStart?, if_neg apart]

theorem routine?_of_head (solid : Text.isBlank c = false) (other : c ∉ ['L', 'P', 'F']) :
    routine? cs = none := by
  simp only [List.mem_cons, List.not_mem_nil, or_false, not_or] at other
  obtain ⟨noLocal, noProc, noFunc⟩ := other
  have stays : dropBlank cs = cs := by
    obtain ⟨cs, rfl⟩ := List.head?_eq_some_iff.1 first
    rw [dropBlank, if_neg (by simp [solid])]
  have none : afterRoutineWord? cs = none := by
    unfold afterRoutineWord?
    dsimp only
    rw [stays,
      dropStart?_of_head first "LOCAL".toList (by simpa using Ne.symm noLocal)
        (by simp),
      dropStart?_of_head first "PROC".toList (by simpa using Ne.symm noProc)
        (by simp),
      dropStart?_of_head first "FUNC".toList (by simpa using Ne.symm noFunc)
        (by simp)]
    rfl
  rw [routine?, none]
  rfl

theorem trap?_of_head (other : c ≠ 'T') : trap? cs = none := by
  rw [trap?, dropStart?_of_head first _ (by simpa using other.symm) (by simp)]
  rfl

theorem record?_of_head (other : c ≠ 'R') : record? cs = none := by
  rw [record?, dropStart?_of_head first _ (by simpa using other.symm) (by simp)]
  rfl

theorem module?_of_head (other : c ≠ 'M') : module? cs = none := by
  rw [module?, dropStart?_of_head first _ (by simpa using other.symm) (by simp)]
  rfl

end First

section Recognized

variable (name : Identifier)

theorem module?_chars : module? (Entry.module name).chars = some (.module name) := by
  have blank : Text.isBlank ' ' = true := by decide
  have closed : ∀ c ∈ name.1.toList, (c != '(') = true := by
    intro c member
    refine bne_iff_ne.2 ?_
    rintro rfl
    exact name.2.not_mem (by decide) (by decide) member
  have whole : name.1.toList.takeWhile (· != '(') = name.1.toList :=
    List.takeWhile_eq_self_iff.2 closed
  rw [module?, Entry.chars, marked, Syntax.Scan.dropStart?_append]
  simp [blank, whole, name.2.trim_toList]

theorem record?_chars : record? (Entry.record name).chars = some (.record name) := by
  have fits : name.1.toList.all isWordChar = true :=
    List.all_eq_true.2 (isWordChar_of_identifier name)
  rw [record?, Entry.chars, marked, Syntax.Scan.dropStart?_append]
  simp only [Option.bind_eq_bind, Option.bind_some, dropBlank_space, isEmpty_identifier,
    fits, String.ofList_toList]
  rfl

theorem trap?_chars : trap? (Entry.trap name).chars = some (.trap none name) := by
  have absent : '(' ∉ name.1.toList := name.2.not_mem (by decide) (by decide)
  have closed : name.1.toList.contains '(' = false := by simpa using absent
  rw [trap?, Entry.chars, marked, Syntax.Scan.dropStart?_append]
  simp only [Option.bind_eq_bind, Option.bind_some, dropBlank_space, isEmpty_identifier,
    closed, typeAndName_name]
  rfl

theorem routine?_chars (r : Routine) : routine? r.chars =
    some (.routine (r.type.map (·.1)) r.name (String.ofList r.argumentChars)) := by
  rw [routine?, Routine.chars, afterRoutineWord?_keywords]
  simp only [Option.bind_eq_bind, Option.bind_some, dropBlank_space, callParts?_chars,
    typeAndName_bodyChars]

end Recognized

theorem declaration?_chars (e : Entry) :
    declaration? (String.ofList e.chars) = some e.declaration := by
  rw [declaration?, String.toList_ofList]
  cases e with
  | module name =>
    have first : (Entry.module name).chars.head? = some 'M' := by simp [Entry.chars, marked]
    rw [routine?_of_head first (by decide) (by decide), trap?_of_head first (by decide),
      record?_of_head first (by decide), module?_chars]
    rfl
  | record name =>
    have first : (Entry.record name).chars.head? = some 'R' := by simp [Entry.chars, marked]
    rw [routine?_of_head first (by decide) (by decide), trap?_of_head first (by decide),
      record?_chars]
    rfl
  | trap name =>
    have first : (Entry.trap name).chars.head? = some 'T' := by simp [Entry.chars, marked]
    rw [routine?_of_head first (by decide) (by decide), trap?_chars]
    rfl
  | routine r =>
    have same : (Entry.routine r).chars = r.chars := rfl
    rw [same, routine?_chars]
    rfl

/-! The characters of a line -/

section Characters

def isPlain (c : Char) : Bool := c.isAlphanum || ['_', ' ', '(', ')', ','].contains c

theorem isPlain_identifier (name : Identifier) : ∀ c ∈ name.1.toList, isPlain c = true := by
  intro c member
  rcases name.2.all c member with letter | rfl
  · rw [isPlain, letter, Bool.true_or]
  · decide

theorem isPlain_argument (a : Argument) : ∀ c ∈ a.chars, isPlain c = true := by
  rw [Argument.chars, List.forall_mem_append, List.forall_mem_cons]
  exact ⟨isPlain_identifier a.type, by decide, isPlain_identifier a.name⟩

theorem isPlain_argumentChars (r : Routine) : ∀ c ∈ r.argumentChars, isPlain c = true := by
  intro c member
  rcases Text.mem_intercalate member with gap | ⟨part, among, inside⟩
  · have signs : ", ".toList.all isPlain = true := by decide
    exact List.all_eq_true.1 signs c gap
  · obtain ⟨a, -, rfl⟩ := List.mem_map.1 among
    exact isPlain_argument a c inside

theorem isPlain_bodyChars (r : Routine) : ∀ c ∈ r.bodyChars, isPlain c = true := by
  unfold Routine.bodyChars
  rw [List.forall_mem_append]
  refine ⟨?_, isPlain_identifier r.name⟩
  cases r.type with
  | none => exact List.forall_mem_nil _
  | some type =>
    rw [Option.elim_some, List.forall_mem_append, List.forall_mem_singleton]
    exact ⟨isPlain_identifier type, by decide⟩

theorem isPlain_keywords (r : Routine) : ∀ c ∈ r.keywords, isPlain c = true := by
  refine List.all_eq_true.1 ?_
  unfold Routine.keywords
  cases r.isLocal <;> cases r.type.isSome <;> decide

theorem isPlain_marked {keyword : String} (plain : keyword.toList.all isPlain = true)
    (name : Identifier) : ∀ c ∈ marked keyword name, isPlain c = true := by
  rw [marked, List.forall_mem_append, List.forall_mem_cons]
  exact ⟨List.all_eq_true.1 plain, by decide, isPlain_identifier name⟩

theorem Entry.isPlain_chars (e : Entry) : ∀ c ∈ e.chars, isPlain c = true := by
  cases e with
  | module name | record name | trap name => exact isPlain_marked (by decide) name
  | routine r =>
    rw [Entry.chars, Routine.chars, List.forall_mem_append, List.forall_mem_cons,
      List.forall_mem_append, List.forall_mem_cons, List.forall_mem_append,
      List.forall_mem_singleton]
    exact ⟨isPlain_keywords r, by decide, isPlain_bodyChars r, by decide,
      isPlain_argumentChars r, by decide⟩

theorem Entry.not_mem_chars (e : Entry) {c : Char} (other : isPlain c = false) : c ∉ e.chars := by
  intro member
  rw [e.isPlain_chars c member] at other
  cases other

theorem solid_head?_of_head {front : List Char} {c : Char} (first : front.head? = some c)
    (solid : Text.isBlank c = false) (rest : List Char) :
    ∀ d ∈ (front ++ rest).head?, Text.isBlank d = false := by
  intro d head
  rw [List.head?_append, first, Option.some_or] at head
  obtain rfl := Option.some.inj head
  exact solid

theorem Routine.trimChars_chars (r : Routine) : Text.trimChars r.chars = r.chars := by
  refine Text.trimChars_of_ends ?first ?last
  case first =>
    have letter : ∃ c, r.keywords.head? = some c ∧ Text.isBlank c = false := by
      unfold keywords
      cases r.isLocal <;> cases r.type.isSome <;> exact ⟨_, rfl, by decide⟩
    obtain ⟨c, first, solid⟩ := letter
    exact solid_head?_of_head first solid _
  case last =>
    have ends : r.chars = (r.keywords ++ ' ' :: (r.bodyChars ++ '(' :: r.argumentChars)) ++
        [')'] := by
      simp [chars]
    intro c last
    rw [ends, List.getLast?_concat] at last
    obtain rfl := Option.some.inj last
    decide

theorem trimChars_marked {keyword : String} {c : Char} (first : keyword.toList.head? = some c)
    (solid : Text.isBlank c = false) (name : Identifier) :
    Text.trimChars (marked keyword name) = marked keyword name := by
  refine Text.trimChars_of_ends (solid_head?_of_head first solid _) ?_
  rw [marked, List.append_cons]
  exact solid_getLast?_identifier name _

theorem Entry.trimChars_chars (e : Entry) : Text.trimChars e.chars = e.chars := by
  cases e with
  | module name => exact trimChars_marked (c := 'M') rfl (by decide) name
  | record name => exact trimChars_marked (c := 'R') rfl (by decide) name
  | trap name => exact trimChars_marked (c := 'T') rfl (by decide) name
  | routine r => exact r.trimChars_chars

end Characters

end Source

end CodeOutline.Analysis.Rapid
