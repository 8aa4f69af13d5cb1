import CodeOutline.Analysis.Java
import CodeOutline.Proofs.Syntax.Grammars
import CodeOutline.Proofs.Syntax.Shapes
import CodeOutline.Proofs.Text.Occurrence
import CodeOutline.Proofs.Text.Trimming

/-!
Array values. What is shown of one is the text between its braces, but without all the braces that
stand together at the end of that text.
-/

set_option autoImplicit false

namespace CodeOutline.Analysis.Java

open Syntax (Node Rule)
open Text (squeeze trimChars trimLeft trimRight isBlank)

/-! ## What the grammar says of array values -/

section Grammar

open Grammar.Java (Name grammar)

/-- An array initializer stands between braces, and the values of an array that is created end
with their initializer. -/
structure IsArray (n : Node) : Prop where
  braced : n.kind = "array_initializer" → ∃ inside, n.chars = '\x7b' :: (inside ++ ['\x7d'])
  valued : n.kind = "array_creation_expression" → ∀ b ∈ n.children, b.field = some "value" →
    b.kind = "array_initializer" ∧ n.start.offset ≤ b.start.offset ∧ b.stop = n.stop

def isArrayless (a : Rule Name) : Bool :=
  a.shuns (fun kind => kind == "array_initializer" || kind == "array_creation_expression")

variable {text : List Char}

theorem isArray_of_other {n : Node} (one : n.kind ≠ "array_initializer")
    (other : n.kind ≠ "array_creation_expression") : IsArray n :=
  ⟨fun same => absurd same one, fun same => absurd same other⟩

theorem builds_of_isArrayless {a : Rule Name} (arrayless : isArrayless a = true) :
    a.Builds grammar text IsArray := by
  refine Rule.builds_of_shuns (fun n free => ?_) arrayless
  rw [Bool.or_eq_false_iff] at free
  exact isArray_of_other (by simpa using free.1) (by simpa using free.2)

theorem arrayInitializerRule_builds :
    Grammar.Java.arrayInitializerRule.Builds grammar text IsArray := by
  refine ⟨builds_of_isArrayless (by decide), fun fuel c xs stop run order each n around => ?_⟩
  refine ⟨fun _ => ?_, fun other => absurd (around.kind_eq.symm.trans other) (by decide)⟩
  obtain ⟨inside, chars⟩ := Syntax.Grammar.chars_of_signs (Syntax.Grammar.derives_of_run run) order
    (fun x member => (each x member).here.1) around
  exact ⟨inside, chars⟩

theorem rules_roleless (name : Name) : (grammar.rule name).isRoleless = true := by
  cases name with
  | binary level =>
    show (Grammar.Java.binaryRule level).isRoleless = true
    unfold Grammar.Java.binaryRule
    split
    · rfl
    · split
      · rfl
      · dsimp only
        split <;> rfl
  | _ => rfl

theorem creation_builds : Grammar.Java.creation.Builds grammar text IsArray := by
  refine ⟨⟨builds_of_isArrayless (by decide), fun fuel c xs stop run order each n around => ?_⟩,
    builds_of_isArrayless (by decide)⟩
  refine ⟨fun other => ?_, fun _ b child role => ?_⟩
  · exact absurd (around.kind_eq.symm.trans other) (by decide)
  have there : b ∈ xs := by
    rw [around.children_eq] at child
    exact (Syntax.Grammar.mem_splitExtras xs).1 (.inr child)
  have tidy := (each b there).here.1.tidy
  have proper : b.isExtra = false := by
    by_contra extra
    rw [tidy (by simpa using extra)] at role
    cases role
  have apart {a : Rule Name} {c stop : Syntax.Cursor} {ys : List Node}
      (derived : grammar.Derives [] a c ys stop) (free : a.isRoleless = true) : b ∉ ys := by
    intro member
    rw [Syntax.Grammar.field_of_isRoleless rules_roleless derived free (List.forall_mem_nil _) b
      member tidy] at role
    cases role
  suffices last : b.kind = "array_initializer" ∧ xs.getLast? = some b by
    obtain ⟨kind, ends⟩ := last
    obtain ⟨ys, rfl⟩ := List.getLast?_eq_some_iff.1 ends
    refine ⟨kind, around.start_le order child, (around.stops b ?_).symm⟩
    rw [around.children_eq, Syntax.core_append_cons proper, List.getLast?_concat]
    rfl
  cases Syntax.Grammar.derives_of_run run with
  | seq word others =>
    cases others with
    | seq element either =>
      replace there := (List.mem_append.1 there).resolve_left (apart word rfl)
      replace there := (List.mem_append.1 there).resolve_left (apart element rfl)
      cases either with
      | altLeft sized => exact absurd there (apart sized rfl)
      | altRight valued =>
        cases valued with
        | seq dimensions value =>
          replace there := (List.mem_append.1 there).resolve_left (apart dimensions rfl)
          have single := Syntax.Grammar.single_field (q := (·.kind = "array_initializer"))
            (fun derived => (Syntax.Grammar.single_call rfl derived).mono
              (fun t own => ⟨own.2.1, own.1⟩)) value
          obtain ⟨⟨u, kind, same⟩, extras, ends⟩ := single.last_of_mem there proper
          refine ⟨by rw [same]; exact kind, ?_⟩
          rw [ends, ← List.append_assoc, ← List.append_assoc, ← List.append_assoc,
            List.getLast?_concat]

theorem builds_of_all {rules : List (Rule Name)} (arrayless : rules.all isArrayless = true) :
    ∀ a ∈ rules, a.Builds grammar text IsArray :=
  fun a member => builds_of_isArrayless (List.all_eq_true.1 arrayless a member)

theorem isArrayless_binaryRule (level : Nat) :
    isArrayless (Grammar.Java.binaryRule level) = true := by
  have operators : ∀ signs ∈ Grammar.Java.levels, isArrayless (Grammar.Java.op signs) = true := by
    decide
  unfold Grammar.Java.binaryRule
  split
  · rfl
  · split
    · rfl
    · next signs found =>
      have own := operators signs (List.mem_of_getElem? found)
      dsimp only
      split <;> simpa [isArrayless, Rule.shuns, Rule.shunsBut, Grammar.Java.reads, Rule.sequence,
        Rule.opt, Grammar.Java.op] using own

theorem rules_build (name : Name) : (grammar.rule name).Builds grammar text IsArray := by
  cases name with
  | arrayInitializer => exact arrayInitializerRule_builds
  | primary =>
    refine Rule.builds_choice (List.forall_mem_cons.2 ⟨builds_of_isArrayless (by decide), ?_⟩)
    refine List.forall_mem_cons.2 ⟨builds_of_isArrayless (by decide), ?_⟩
    exact List.forall_mem_cons.2 ⟨creation_builds, builds_of_all (by decide)⟩
  | postfixed =>
    refine ⟨trivial, Rule.builds_choice (List.forall_mem_cons.2
      ⟨builds_of_isArrayless (by decide), List.forall_mem_cons.2 ⟨?_, builds_of_all (by decide)⟩⟩)⟩
    refine ⟨⟨builds_of_isArrayless (by decide), creation_builds⟩, fun n same => ?_⟩
    exact isArray_of_other (by rw [same]; decide) (by rw [same]; decide)
  | binary level => exact builds_of_isArrayless (isArrayless_binaryRule level)
  | _ => exact builds_of_isArrayless (by decide)

/-- All nodes in a document have the text from their start on, and their braces if they are array
values. -/
theorem isArray_of_read? {root n : Node} (read : Grammar.Java.read? text = some root)
    (has : root.Has n) (other : n.kind ≠ "program") : n.IsRead text ∧ IsArray n := by
  have all : ∀ c ∈ root.children, c.Each (fun n => n.IsRead text ∧ IsArray n) := by
    refine Syntax.Grammar.each_of_read? ?comments ?roles ?moves rules_build ?own
      (builds_of_isArrayless (by decide)) read
    case comments =>
      intro depth cs length kind found n same
      have among := Syntax.Scan.kind_of_between found
      refine isArray_of_other (fun one => ?_) (fun one => ?_)
      · rw [← same, one] at among
        exact absurd among (by decide)
      · rw [← same, one] at among
        exact absurd among (by decide)
    case roles => exact fun array _ => ⟨array.braced, array.valued⟩
    case moves =>
      intro name
      rw [Grammar.Java.moves_rule]
      exact List.forall_mem_nil _
    case own => exact List.forall_mem_nil _
  cases has with
  | self => exact absurd (Syntax.Grammar.kind_of_read? read) other
  | inside member below => exact (below.each (all _ member)).here

end Grammar

/-! ## What is shown -/

/-- The text of an array value between brackets, cut when it is longer than what is shown. -/
def shownArray (inner : List Char) : String :=
  if shownChars < inner.length then "[" ++ String.ofList (inner.take shownChars) ++ "...]"
  else "[" ++ String.ofList inner ++ "]"

/-- The part of an array value that stands between braces. -/
def initializer? (n : Node) : Option Node :=
  if n.kind = "array_initializer" then some n
  else if n.kind = "array_creation_expression" then n.child? "value"
  else none

section Shown

variable {xs ys : List Char}

theorem toList_shownArray (inner : List Char) : (shownArray inner).toList =
    '[' :: if shownChars < inner.length then inner.take shownChars ++ "...]".toList
      else inner ++ [']'] := by
  unfold shownArray
  split <;> simp

theorem shownArray_eq_iff (leads : xs <+: ys) (other : xs ≠ ys) :
    shownArray xs = shownArray ys ↔ shownChars < xs.length := by
  have shorter : xs.length ≤ ys.length := leads.length_le
  rw [← String.toList_inj, toList_shownArray, toList_shownArray, List.cons_inj_right]
  constructor
  · intro same
    by_contra short
    rw [if_neg short] at same
    split at same
    · next long =>
      have lengths := congrArg List.length same
      have dots : "...]".toList.length = 4 := rfl
      rw [List.length_append, List.length_append, List.length_take, Nat.min_eq_left long.le, dots,
        List.length_singleton] at lengths
      omega
    · exact other (List.append_left_injective _ same)
  · intro long
    rw [if_pos long, if_pos (Nat.lt_of_lt_of_le long shorter)]
    obtain ⟨rest, rfl⟩ := leads
    rw [List.take_append_of_le_length long.le]

theorem dropBraces_concat (xs : List Char) : dropBraces (xs ++ ['\x7d']) = dropBraces xs := by
  rw [dropBraces, List.reverse_concat, List.dropWhile_cons_of_pos rfl, dropBraces]

theorem dropBraces_of_getLast? (other : xs.getLast? ≠ some '\x7d') : dropBraces xs = xs := by
  rcases List.eq_nil_or_concat xs with rfl | ⟨ys, c, rfl⟩
  · rfl
  · rw [List.concat_eq_append] at other ⊢
    rw [List.getLast?_concat] at other
    rw [dropBraces, List.reverse_concat, List.dropWhile_cons_of_neg (by simpa using other),
      List.reverse_cons, List.reverse_reverse]

theorem dropBraces_leads (xs : List Char) : dropBraces xs <+: xs := by
  have back : xs.reverse.dropWhile (· == '\x7d') <:+ xs.reverse := List.dropWhile_suffix _
  rw [← List.reverse_prefix, List.reverse_reverse] at back
  exact back

theorem trimLeft_leads (leads : xs <+: ys) : trimLeft xs <+: trimLeft ys := by
  obtain ⟨rest, rfl⟩ := leads
  rw [trimLeft, trimLeft, List.dropWhile_append]
  split
  · next none =>
    rw [List.isEmpty_iff.1 none]
    exact List.nil_prefix
  · exact List.prefix_append _ _

/-- Without braces at the end nothing is lost; else the shorter text is shown for the longer one,
which only shows when it is not cut. -/
theorem shownArray_dropBraces_iff (xs : List Char) :
    shownArray (trimChars (dropBraces xs)) = shownArray (trimChars xs) ↔
      xs.getLast? ≠ some '\x7d' ∨ shownChars < (trimChars (dropBraces xs)).length := by
  by_cases brace : xs.getLast? = some '\x7d'
  · obtain ⟨ys, rfl⟩ := List.getLast?_eq_some_iff.1 brace
    have solid : isBlank '\x7d' = false := by decide
    have whole : trimChars (ys ++ ['\x7d']) = trimLeft ys ++ ['\x7d'] := by
      rw [trimChars, Text.trimLeft_append_cons solid, Text.trimRight_concat solid]
    have inner : trimChars (dropBraces ys) <+: trimLeft ys :=
      (Text.trimRight_leads _).trans (trimLeft_leads (dropBraces_leads ys))
    rw [dropBraces_concat, whole, or_iff_right (not_not_intro brace)]
    refine shownArray_eq_iff (inner.trans (List.prefix_append _ _)) (fun same => ?_)
    have lengths := inner.length_le
    rw [same, List.length_append] at lengths
    exact absurd lengths (by simp)
  · rw [dropBraces_of_getLast? brace]
    exact iff_of_true rfl (.inl brace)

end Shown

/-! ## Array values of documents -/

section Documents

variable {text : String} {root n b : Node}

theorem initializer?_parts (read : Grammar.Java.read? text.toList = some root) (has : root.Has n)
    (braced : initializer? n = some b) : b.kind = "array_initializer" ∧
      (∃ inside, b.chars = '\x7b' :: (inside ++ ['\x7d'])) ∧
      n.chars = (n.textBefore b).toList ++ b.chars := by
  unfold initializer? at braced
  split at braced
  · next kind =>
    cases braced
    obtain ⟨-, array⟩ := isArray_of_read? read has (by rw [kind]; decide)
    refine ⟨kind, array.braced kind, ?_⟩
    rw [Node.textBefore, String.toList_ofList, Nat.sub_self, List.take_zero, List.nil_append]
  · split at braced
    · next kind =>
      have child := Node.mem_children_of_child? braced
      have role : b.field = some "value" := by simpa using List.find?_some braced
      obtain ⟨own, array⟩ := isArray_of_read? read has (by rw [kind]; decide)
      obtain ⟨kind', later, ends⟩ := array.valued kind b child role
      obtain ⟨inner, array'⟩ := isArray_of_read? read (has.trans (.child child))
        (by rw [kind']; decide)
      refine ⟨kind', array'.braced kind', ?_⟩
      obtain ⟨inside, chars⟩ := array'.braced kind'
      have forth : b.start.offset ≤ b.stop.offset := by
        by_contra back
        rw [Node.chars, Nat.sub_eq_zero_of_le (by omega)] at chars
        cases chars
      rw [Node.chars, ← ends, own.take_tail inner later forth, Node.textBefore,
        String.toList_ofList]
    · cases braced

/-- The first brace of the collapsed text and the one at its end are those of the initializer,
unless there is one in front of that. -/
theorem exists_between {inside : List Char} (chars : b.chars = '\x7b' :: (inside ++ ['\x7d']))
    (parts : n.chars = (n.textBefore b).toList ++ b.chars) :
    ∃ front inner, (Text.collapse n.text).toList = front ++ '\x7b' :: (inner ++ ['\x7d']) ∧
      '\x7b' ∉ front ∧ ('\x7b' ∉ (n.textBefore b).toList → inner = squeeze inside) := by
  have opens : isBlank '\x7b' = false := by decide
  have closes : isBlank '\x7d' = false := by decide
  have collapsed : (Text.collapse n.text).toList =
      trimLeft (squeeze (n.textBefore b).toList) ++ '\x7b' :: (squeeze inside ++ ['\x7d']) := by
    rw [Node.text, Text.toList_collapse, parts, chars, Text.squeeze_append_cons opens,
      Text.squeeze_append_cons closes, trimChars, Text.trimLeft_append_cons opens,
      ← List.cons_append, ← List.append_assoc, squeeze, Text.trimRight_concat closes,
      List.append_assoc, List.cons_append]
  by_cases brace : '\x7b' ∈ trimLeft (squeeze (n.textBefore b).toList)
  · obtain ⟨front, more, split, early⟩ := List.eq_append_cons_of_mem brace
    refine ⟨front, more ++ '\x7b' :: squeeze inside, ?_, early, fun none => ?_⟩
    · rw [collapsed, split]
      simp only [List.append_assoc, List.cons_append]
    · exact absurd (Text.mem_of_mem_squeeze opens ((List.dropWhile_sublist _).subset brace)) none
  · exact ⟨_, squeeze inside, collapsed, brace, fun _ => rfl⟩

/-- An array value is shown as the text between its first brace and the brace at its end, without
any other braces at the end. This is the trimmed text between the two unless it ends in a brace; the
difference only shows when the rest is not cut. The two are the braces of the initializer where none
stands in front of that. -/
theorem renderValue_array (read : Grammar.Java.read? text.toList = some root) (has : root.Has n)
    (braced : initializer? n = some b) :
    ∃ front inner, (Text.collapse n.text).toList = front ++ '\x7b' :: (inner ++ ['\x7d']) ∧
      '\x7b' ∉ front ∧ renderValue n = shownArray (trimChars (dropBraces inner)) ∧
      (renderValue n = shownArray (trimChars inner) ↔
        inner.getLast? ≠ some '\x7d' ∨ shownChars < (trimChars (dropBraces inner)).length) ∧
      ∃ inside, b.chars = '\x7b' :: (inside ++ ['\x7d']) ∧
        n.chars = (n.textBefore b).toList ++ b.chars ∧
        ('\x7b' ∉ (n.textBefore b).toList → inner = squeeze inside) := by
  obtain ⟨-, ⟨inside, chars⟩, parts⟩ := initializer?_parts read has braced
  obtain ⟨front, inner, collapsed, early, same⟩ := exists_between chars parts
  have cut : Text.cutFirst? ['\x7b'] (Text.collapse n.text).toList =
      some (front, inner ++ ['\x7d']) := by
    rw [collapsed]
    exact Text.cutFirst?_of_first (by simpa [List.singleton_infix_iff] using early) _
  have shown : renderValue n = shownArray (trimChars (dropBraces inner)) := by
    have kind : n.kind = "array_initializer" ∨ n.kind = "array_creation_expression" := by
      unfold initializer? at braced
      split at braced
      · next kind => exact .inl kind
      · split at braced
        · next kind => exact .inr kind
        · cases braced
    rw [renderValue, if_pos (by simpa using kind), cut, ← dropBraces_concat]
    rfl
  refine ⟨front, inner, collapsed, early, shown, ?_, inside, chars, parts, same⟩
  rw [shown, shownArray_dropBraces_iff]

end Documents

/-- A class with a matrix and a row. -/
def matrixText : String :=
  "class A \x7b int[][] m = \x7b\x7b1,2\x7d,\x7b3,4\x7d\x7d; int[] r = new int[] \x7b 5,  6 \x7d; \x7d"

theorem matrix_values : (Grammar.Java.read? matrixText.toList).any (fun root =>
    ((root.deep 5).any (fun n => n.kind == "array_creation_expression" &&
      (initializer? n).isSome)) &&
    ((root.deep 5).any (fun n => n.kind == "array_initializer" &&
      n.chars == "\x7b\x7b1,2\x7d,\x7b3,4\x7d\x7d".toList &&
      renderValue n == "[\x7b1,2\x7d,\x7b3,4]"))) = true := by
  decide +kernel

theorem renderValue_array_matrix :
    ∃ root n b, Grammar.Java.read? matrixText.toList = some root ∧ root.Has n ∧
      initializer? n = some b ∧
      ∃ front inner, (Text.collapse n.text).toList = front ++ '\x7b' :: (inner ++ ['\x7d']) ∧
        '\x7b' ∉ front ∧ renderValue n = shownArray (trimChars (dropBraces inner)) ∧
        (renderValue n = shownArray (trimChars inner) ↔
          inner.getLast? ≠ some '\x7d' ∨ shownChars < (trimChars (dropBraces inner)).length) ∧
        ∃ inside, b.chars = '\x7b' :: (inside ++ ['\x7d']) ∧
          n.chars = (n.textBefore b).toList ++ b.chars ∧
          ('\x7b' ∉ (n.textBefore b).toList → inner = squeeze inside) := by
  obtain ⟨root, read, found⟩ := (Option.any_eq_true _ _).1 matrix_values
  obtain ⟨n, member, own⟩ := List.any_eq_true.1 (Bool.and_eq_true_iff.1 found).1
  obtain ⟨b, braced⟩ := Option.isSome_iff_exists.1 (Bool.and_eq_true_iff.1 own).2
  have has := Node.has_of_mem_deep member
  exact ⟨root, n, b, read, has, braced, renderValue_array read has braced⟩

/-- Of the rows in a matrix the last one loses its brace. -/
theorem renderValue_ne_inside :
    ∃ root n inside, Grammar.Java.read? matrixText.toList = some root ∧ root.Has n ∧
      initializer? n = some n ∧ n.chars = '\x7b' :: (inside ++ ['\x7d']) ∧
      renderValue n ≠ shownArray (trimChars (squeeze inside)) := by
  obtain ⟨root, read, found⟩ := (Option.any_eq_true _ _).1 matrix_values
  obtain ⟨n, member, own⟩ := List.any_eq_true.1 (Bool.and_eq_true_iff.1 found).2
  simp only [Bool.and_eq_true, beq_iff_eq] at own
  obtain ⟨⟨kind, chars⟩, shown⟩ := own
  refine ⟨root, n, "\x7b1,2\x7d,\x7b3,4\x7d".toList, read, Node.has_of_mem_deep member, ?_, ?_, ?_⟩
  · rw [initializer?, if_pos kind]
  · rw [chars]
    decide
  · rw [shown]
    decide

end CodeOutline.Analysis.Java
