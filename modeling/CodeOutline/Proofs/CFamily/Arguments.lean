import CodeOutline.Analysis.CFamily
import CodeOutline.Proofs.Name.Splitting
import CodeOutline.Proofs.Text.Listings

/-!
The arguments in a declaration, as they are written and as they are recovered from its line. The
text between the parentheses comes apart at its commas, each part at its first equals sign, and
what stands before that at its blanks; a list of arguments whose words, names and default values
have none of these marks where they would be taken for the list's own is read back as it is.
-/

set_option autoImplicit false

namespace CodeOutline.Analysis.CFamily

/-- An argument: the words of its type, its name, and its default value. -/
structure Argument where
  type : List String := []
  name : String
  default? : Option String := none

/-- A word of a type, or a name. -/
def IsWord (w : String) : Prop :=
  w ≠ "" ∧ ∀ c ∈ w.toList, Text.isBlank c = false ∧ c ∉ [',', '=', '(', ')']

/-- A default value; it may have equals signs and opening parentheses in it. -/
def IsDefault (v : String) : Prop :=
  v ≠ "" ∧ Text.trim v = v ∧ ∀ c ∈ v.toList, c ∉ [',', ')']

namespace Argument

variable (a : Argument)

/-- The type and the name. -/
def declaration : String := " ".intercalate (a.type ++ [a.name])

/-- What is written for the argument. -/
def text : String :=
  match a.default? with
  | none => a.declaration
  | some v => a.declaration ++ " = " ++ v

/-- The token of the argument in an outline. -/
def token : VarToken where
  name := a.name
  type := if a.type = [] then none else some (" ".intercalate a.type)
  value := a.default?

/-- The parts have no marks in them that would end them, and the argument is not the bare word
that stands for a list without any. -/
structure IsPlain : Prop where
  type : ∀ w ∈ a.type, IsWord w
  name : IsWord a.name
  default : ∀ v ∈ a.default?, IsDefault v
  notVoid : a ≠ { name := "void" }

theorem text_of_none {a : Argument} (bare : a.default? = none) : a.text = a.declaration := by
  rw [text, bare]

theorem text_of_some {a : Argument} {v : String} (given : a.default? = some v) :
    a.text = a.declaration ++ " = " ++ v := by
  rw [text, given]

end Argument

/-! What is written for one argument -/

namespace Argument.IsPlain

variable {a : Argument}

theorem word (plain : a.IsPlain) : ∀ w ∈ a.type ++ [a.name], IsWord w := by
  intro w member
  rcases List.mem_append.1 member with inType | isName
  · exact plain.type w inType
  · exact List.mem_singleton.1 isName ▸ plain.name

theorem solid (plain : a.IsPlain) :
    ∀ w ∈ a.type ++ [a.name], w ≠ "" ∧ ∀ c ∈ w.toList, Text.isBlank c = false :=
  fun w member => ⟨(plain.word w member).1, fun c inside => ((plain.word w member).2 c inside).1⟩

theorem words_declaration (plain : a.IsPlain) :
    Text.words a.declaration = a.type ++ [a.name] := Text.words_intercalate plain.solid

theorem trim_declaration (plain : a.IsPlain) :
    Text.trim a.declaration = a.declaration ∧ a.declaration ≠ "" := by
  obtain ⟨w, ws, parts⟩ : ∃ w ws, a.type ++ [a.name] = w :: ws :=
    List.exists_cons_of_ne_nil (by simp)
  have solid := plain.solid
  rw [parts] at solid
  rw [declaration, parts]
  exact Text.trim_intercalate solid

theorem not_mem_declaration (plain : a.IsPlain) {mark : Char}
    (among : mark ∈ [',', '=', '(', ')']) : mark ∉ a.declaration.toList := by
  intro member
  rw [declaration, String.toList_intercalate] at member
  rcases Text.mem_intercalate member with space | ⟨chars, word, inside⟩
  · obtain rfl := List.mem_singleton.1 space
    exact absurd among (by decide)
  · obtain ⟨w, here, rfl⟩ := List.mem_map.1 word
    exact ((plain.word w here).2 mark inside).2 among

theorem not_mem_text (plain : a.IsPlain) {mark : Char} (among : mark ∈ [',', ')']) :
    mark ∉ a.text.toList := by
  have absent : mark ∉ a.declaration.toList := by
    refine plain.not_mem_declaration ?_
    rcases List.mem_pair.1 among with rfl | rfl <;> decide
  cases given : a.default? with
  | none => rwa [text_of_none given]
  | some v =>
    have apart : mark ∉ " = ".toList := by
      rcases List.mem_pair.1 among with rfl | rfl <;> decide
    have inValue : mark ∉ v.toList := fun inside => (plain.default v given).2.2 mark inside among
    rw [text_of_some given, String.toList_append, String.toList_append, List.mem_append,
      List.mem_append, not_or, not_or]
    exact ⟨⟨absent, apart⟩, inValue⟩

theorem trim_text (plain : a.IsPlain) : Text.trim a.text = a.text ∧ a.text ≠ "" := by
  obtain ⟨trimmed, filled⟩ := plain.trim_declaration
  cases given : a.default? with
  | none => rw [text_of_none given]; exact ⟨trimmed, filled⟩
  | some v =>
    obtain ⟨some, whole, -⟩ := plain.default v given
    rw [text_of_some given]
    exact ⟨Text.trim_between trimmed filled whole some " = ", by simp [filled]⟩

theorem token_of_declaration (plain : a.IsPlain) (value : Option String) :
    let words := Text.words a.declaration
    ({ name := words.getLast?.getD a.declaration
       type := nonempty? (" ".intercalate words.dropLast), value } : VarToken) =
      { a.token with value } := by
  have type : nonempty? (" ".intercalate a.type) = a.token.type := by
    unfold nonempty? token
    cases typed : a.type with
    | nil => rfl
    | cons w ws =>
      have solid : ∀ v ∈ w :: ws, v ≠ "" ∧ ∀ c ∈ v.toList, Text.isBlank c = false :=
        fun v member => plain.solid v (List.mem_append_left _ (typed ▸ member))
      simpa using (Text.trim_intercalate solid).2
  rw [plain.words_declaration]
  simp [type, token]

theorem argumentOf_text (plain : a.IsPlain) : argumentOf a.text = a.token := by
  have parts := plain.token_of_declaration
  cases given : a.default? with
  | none =>
    have uncut : Text.cutFirst? ['='] a.declaration.toList = none :=
      Text.cutFirst?_of_not_mem (plain.not_mem_declaration (by decide))
    rw [argumentOf, text_of_none given, uncut]
    simpa [token, given] using parts none
  | some v =>
    obtain ⟨filled, whole, -⟩ := plain.default v given
    have cut : Text.cutFirst? ['='] (a.declaration ++ " = " ++ v).toList =
        some (a.declaration.toList ++ [' '], ' ' :: v.toList) := by
      have chars : (a.declaration ++ " = " ++ v).toList =
          (a.declaration.toList ++ [' ']) ++ '=' :: ' ' :: v.toList := by
        simp
      rw [chars]
      exact Text.cutFirst?_append (by simpa using plain.not_mem_declaration (by decide)) _
    have space : ∀ c ∈ [' '], Text.isBlank c = true := List.forall_mem_singleton.2 (by decide)
    have front : Text.trimChars (a.declaration.toList ++ [' ']) = a.declaration.toList := by
      rw [Text.trimChars_append_blanks _ space, Text.trimChars_of_trim plain.trim_declaration.1]
    have back : Text.trimChars (' ' :: v.toList) = v.toList :=
      (Text.blanks_append_trimChars space v.toList).trans (Text.trimChars_of_trim whole)
    rw [argumentOf, text_of_some given, cut]
    simpa [token, given, front, back, nonempty?, filled] using parts (some v)

theorem text_ne_void (plain : a.IsPlain) : a.text ≠ "void" := by
  intro written
  have read : a.token = { name := "void" } := by
    rw [← plain.argumentOf_text, written]
    decide
  refine plain.notVoid ?_
  obtain ⟨type, name, default?⟩ := a
  simpa [token, and_left_comm] using read

end Argument.IsPlain

/-! Lists of arguments -/

theorem arguments_of_open {front : String} (closed : '(' ∉ front.toList) (rest : String) :
    arguments (front ++ "(" ++ rest) =
      ((((Text.splitAt ',' (String.ofList (rest.toList.takeWhile (· != ')')))).map Text.trim).filter
        (fun a => !a.isEmpty)).filter (· != "void")).map argumentOf := by
  have cut : Text.cutFirst? ['('] (front ++ "(" ++ rest).toList =
      some (front.toList, rest.toList) := by
    simpa using Text.cutFirst?_append closed rest.toList
  rw [arguments, cut, List.filter_filter]
  simp [Bool.and_comm]

theorem arguments_of_takeWhile {front : String} (closed : '(' ∉ front.toList)
    {args : List Argument} (plain : ∀ a ∈ args, a.IsPlain) {rest : String}
    (ends : rest.toList.takeWhile (· != ')') = (", ".intercalate (args.map Argument.text)).toList) :
    arguments (front ++ "(" ++ rest) = args.map Argument.token := by
  have parts : ∀ part ∈ args.map Argument.text,
      part ≠ "" ∧ ',' ∉ part.toList ∧ Text.trim part = part := by
    intro part member
    obtain ⟨a, here, rfl⟩ := List.mem_map.1 member
    obtain ⟨trimmed, filled⟩ := (plain a here).trim_text
    exact ⟨filled, (plain a here).not_mem_text (by simp), trimmed⟩
  have none : (args.map Argument.text).filter (· != "void") = args.map Argument.text := by
    rw [List.filter_eq_self]
    intro part member
    obtain ⟨a, here, rfl⟩ := List.mem_map.1 member
    simpa using (plain a here).text_ne_void
  rw [arguments_of_open closed, ends, String.ofList_toList, Text.trim_splitAt_commas parts, none,
    List.map_map]
  exact List.map_congr_left (fun a member => (plain a member).argumentOf_text)

theorem definitionLine_cases {lines : List String} {n : Nat} {line opened rest : String}
    (here : lines[n]? = some line) (whole : Text.trim line = opened ++ ")" ++ rest) :
    definitionLine lines n = opened ∨ ∃ more, definitionLine lines n = opened ++ ")" ++ more := by
  have chars : Text.trimChars line.toList = (opened ++ ")" ++ rest).toList := by
    rw [← whole, Text.trim, String.toList_ofList]
  rw [definitionLine, here, Option.getD_some, chars]
  rcases rest.toList.eq_nil_or_concat with empty | ⟨more, c, ends⟩
  · left
    simp [empty]
  · right
    refine ⟨String.ofList more, ?_⟩
    have last : (opened ++ ")" ++ rest).toList =
        (opened ++ ")" ++ String.ofList more).toList ++ [c] := by
      simp [ends]
    rw [last, List.dropLast_concat, String.ofList_toList]

/-- Arguments are recovered from a declaration as they are written in it, whatever stands behind
the closing parenthesis, and also when the text ends in front of it. So they are recovered from the
line of the declaration too, which lacks its last character. -/
theorem arguments_of_written {front : String} (closed : '(' ∉ front.toList)
    {args : List Argument} (plain : ∀ a ∈ args, a.IsPlain) (rest : String) :
    let opened := front ++ "(" ++ ", ".intercalate (args.map Argument.text)
    arguments (opened ++ ")" ++ rest) = args.map Argument.token ∧
      arguments opened = args.map Argument.token ∧
      ∀ (lines : List String) (n : Nat) (line : String), lines[n]? = some line →
        Text.trim line = opened ++ ")" ++ rest →
        arguments (definitionLine lines n) = args.map Argument.token := by
  intro opened
  have inside : ∀ c ∈ (", ".intercalate (args.map Argument.text)).toList, (c != ')') = true := by
    intro c member
    rw [bne_iff_ne]
    rintro rfl
    rw [String.toList_intercalate] at member
    rcases Text.mem_intercalate member with between | ⟨part, among, inPart⟩
    · exact absurd between (by decide)
    · obtain ⟨text, written, rfl⟩ := List.mem_map.1 among
      obtain ⟨a, here, rfl⟩ := List.mem_map.1 written
      exact (plain a here).not_mem_text (by decide) inPart
  have ended (more : String) : arguments (opened ++ ")" ++ more) = args.map Argument.token := by
    rw [String.append_assoc, String.append_assoc]
    refine arguments_of_takeWhile closed plain ?_
    rw [String.toList_append, List.takeWhile_append_of_pos inside]
    simp
  have cut : arguments opened = args.map Argument.token :=
    arguments_of_takeWhile closed plain (List.takeWhile_eq_self_iff.2 inside)
  refine ⟨ended rest, cut, fun lines n line here whole => ?_⟩
  rcases definitionLine_cases here whole with short | ⟨more, long⟩
  · rw [short, cut]
  · rw [long, ended]

/-- A type of several words, and a default value with an equals sign and a parenthesis in it. -/
theorem arguments_of_written_resize :
    let args : List Argument := [{ type := ["const", "Size", "&"], name := "size" },
      { name := "void", default? := some "(a == b" }]
    '(' ∉ "static void Resize".toList ∧ (∀ a ∈ args, a.IsPlain) ∧
      arguments "static void Resize(const Size & size, void = (a == b) const" =
        args.map Argument.token := by
  intro args
  have closed : '(' ∉ "static void Resize".toList := by decide
  have plain : ∀ a ∈ args, a.IsPlain := by
    refine List.forall_mem_cons.2 ⟨⟨?_, ?_, ?_, ?_⟩, List.forall_mem_singleton.2 ⟨?_, ?_, ?_, ?_⟩⟩
    all_goals simp [IsWord, IsDefault]
    all_goals decide
  exact ⟨closed, plain, (arguments_of_written closed plain " const").1⟩

end CodeOutline.Analysis.CFamily
