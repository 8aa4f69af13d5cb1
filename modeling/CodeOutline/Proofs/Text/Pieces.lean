import CodeOutline.Text.Search

/-!
Pieces of a text between separators, for texts put together from others, and the lines of a text
against its pieces between line feeds.
-/

set_option autoImplicit false

namespace CodeOutline.Text

variable {α : Type} {isSep : α → Bool} {a b : List α} {c : α}

theorem splitChars_cons_of_sep (sep : isSep c = true) :
    splitChars isSep (c :: b) = [] :: splitChars isSep b := by
  rw [splitChars, if_pos sep]

theorem splitChars_ne_nil (isSep : α → Bool) (cs : List α) : splitChars isSep cs ≠ [] := by
  cases cs with
  | nil => simp [splitChars]
  | cons c cs =>
    rw [splitChars]
    split
    · simp
    · split <;> simp

theorem splitChars_cons_of_other (other : isSep c = false) {piece : List α}
    {rest : List (List α)} (pieces : splitChars isSep b = piece :: rest) :
    splitChars isSep (c :: b) = (c :: piece) :: rest := by
  rw [splitChars, if_neg (by simp [other]), pieces]

theorem splitChars_append_of_others (others : ∀ c ∈ a, isSep c = false) {piece : List α}
    {rest : List (List α)} (pieces : splitChars isSep b = piece :: rest) :
    splitChars isSep (a ++ b) = (a ++ piece) :: rest := by
  induction a with
  | nil => exact pieces
  | cons c a ih =>
    rw [List.forall_mem_cons] at others
    exact splitChars_cons_of_other others.1 (ih others.2)

theorem splitChars_of_others (others : ∀ c ∈ a, isSep c = false) : splitChars isSep a = [a] := by
  have pieces := splitChars_append_of_others others (b := []) rfl
  rwa [List.append_nil] at pieces

theorem others_of_mem_splitChars {piece : List α} (member : piece ∈ splitChars isSep b) :
    ∀ c ∈ piece, isSep c = false := by
  induction b generalizing piece with
  | nil =>
    obtain rfl := List.mem_singleton.1 member
    simp
  | cons d b ih =>
    cases at_ : isSep d with
    | true =>
      rw [splitChars_cons_of_sep at_] at member
      rcases List.mem_cons.1 member with rfl | later
      · simp
      · exact ih later
    | false =>
      obtain ⟨first, rest, pieces⟩ := List.exists_cons_of_ne_nil (splitChars_ne_nil isSep b)
      rw [splitChars_cons_of_other at_ pieces] at member
      rw [pieces] at ih
      rcases List.mem_cons.1 member with rfl | later
      · exact List.forall_mem_cons.2 ⟨at_, ih List.mem_cons_self⟩
      · exact ih (List.mem_cons_of_mem _ later)

theorem splitChars_leads {piece : List α} {rest : List (List α)}
    (pieces : splitChars isSep b = piece :: rest) : piece <+: b := by
  induction b generalizing piece rest with
  | nil =>
    obtain ⟨rfl, -⟩ := List.cons.inj pieces
    exact List.nil_prefix
  | cons d b ih =>
    cases at_ : isSep d with
    | true =>
      rw [splitChars_cons_of_sep at_] at pieces
      obtain ⟨rfl, -⟩ := List.cons.inj pieces
      exact List.nil_prefix
    | false =>
      obtain ⟨first, more, parts⟩ := List.exists_cons_of_ne_nil (splitChars_ne_nil isSep b)
      rw [splitChars_cons_of_other at_ parts] at pieces
      obtain ⟨rfl, -⟩ := List.cons.inj pieces
      exact List.cons_prefix_cons.2 ⟨rfl, ih parts⟩

theorem infix_of_mem_splitChars {piece : List α} (member : piece ∈ splitChars isSep b) :
    piece <:+: b := by
  induction b generalizing piece with
  | nil =>
    obtain rfl := List.mem_singleton.1 member
    exact List.infix_refl _
  | cons d b ih =>
    cases at_ : isSep d with
    | true =>
      rw [splitChars_cons_of_sep at_] at member
      rcases List.mem_cons.1 member with rfl | later
      · exact List.nil_infix
      · exact List.infix_cons (ih later)
    | false =>
      obtain ⟨first, rest, pieces⟩ := List.exists_cons_of_ne_nil (splitChars_ne_nil isSep b)
      rw [splitChars_cons_of_other at_ pieces] at member
      rcases List.mem_cons.1 member with rfl | later
      · exact (List.cons_prefix_cons.2 ⟨rfl, splitChars_leads pieces⟩).isInfix
      · exact List.infix_cons (ih (pieces ▸ List.mem_cons_of_mem _ later))

theorem mem_of_mem_splitChars {piece : List α} (member : piece ∈ splitChars isSep b)
    (inside : c ∈ piece) : c ∈ b := (infix_of_mem_splitChars member).subset inside

theorem splitChars_append_sep (a b : List α) (sep : isSep c = true) :
    splitChars isSep (a ++ c :: b) = splitChars isSep a ++ splitChars isSep b := by
  induction a with
  | nil => rw [List.nil_append, splitChars_cons_of_sep sep]; rfl
  | cons d a ih =>
    rw [List.cons_append]
    cases at_ : isSep d with
    | true => rw [splitChars_cons_of_sep at_, splitChars_cons_of_sep at_, ih, List.cons_append]
    | false =>
      obtain ⟨piece, rest, pieces⟩ := List.exists_cons_of_ne_nil (splitChars_ne_nil isSep a)
      have whole : splitChars isSep (a ++ c :: b) = piece :: (rest ++ splitChars isSep b) := by
        rw [ih, pieces, List.cons_append]
      rw [splitChars_cons_of_other at_ pieces, splitChars_cons_of_other at_ whole,
        List.cons_append]

theorem splitChars_or (isSep isOther : α → Bool) (a : List α) :
    splitChars (fun c => isSep c || isOther c) a =
      (splitChars isSep a).flatMap (splitChars isOther) := by
  induction a with
  | nil => rfl
  | cons c a ih =>
    cases at_ : isSep c with
    | true =>
      rw [splitChars_cons_of_sep at_, splitChars_cons_of_sep (by simp [at_]), ih,
        List.flatMap_cons]
      rfl
    | false =>
      obtain ⟨piece, rest, pieces⟩ := List.exists_cons_of_ne_nil (splitChars_ne_nil isSep a)
      rw [pieces, List.flatMap_cons] at ih
      rw [splitChars_cons_of_other at_ pieces, List.flatMap_cons]
      cases other : isOther c with
      | true =>
        rw [splitChars_cons_of_sep (by simp [other]), splitChars_cons_of_sep other, ih,
          List.cons_append]
      | false =>
        obtain ⟨part, more, parts⟩ :=
          List.exists_cons_of_ne_nil (splitChars_ne_nil isOther piece)
        rw [parts, List.cons_append] at ih
        rw [splitChars_cons_of_other (by simp [at_, other]) ih,
          splitChars_cons_of_other other parts, List.cons_append]

theorem splitChars_intercalate (sep : isSep c = true) {parts : List (List α)}
    (others : ∀ part ∈ parts, ∀ c ∈ part, isSep c = false) (several : parts ≠ []) :
    splitChars isSep ([c].intercalate parts) = parts := by
  induction parts with
  | nil => exact absurd rfl several
  | cons part parts ih =>
    obtain ⟨first, later⟩ := List.forall_mem_cons.1 others
    cases parts with
    | nil => rw [List.intercalate_singleton, splitChars_of_others first]
    | cons next parts =>
      rw [List.intercalate_cons_cons, List.append_assoc, List.singleton_append,
        splitChars_append_sep _ _ sep, splitChars_of_others first, ih later (by simp)]
      rfl

theorem intercalate_splitChars [BEq α] [LawfulBEq α] (c : α) (a : List α) :
    [c].intercalate (splitChars (· == c) a) = a := by
  induction a with
  | nil => rfl
  | cons d a ih =>
    obtain ⟨piece, rest, pieces⟩ := List.exists_cons_of_ne_nil (splitChars_ne_nil (· == c) a)
    by_cases sep : d = c
    · subst sep
      have cut : splitChars (· == d) (d :: a) = [] :: splitChars (· == d) a :=
        splitChars_cons_of_sep BEq.rfl
      rw [pieces] at ih cut
      rw [cut, List.intercalate_cons_cons, ih]
      rfl
    · have cut : splitChars (· == c) (d :: a) = (d :: piece) :: rest :=
        @splitChars_cons_of_other _ (· == c) _ _ (beq_false_of_ne sep) _ _ pieces
      rw [pieces] at ih
      rw [cut, ← ih]
      cases rest with
      | nil => rfl
      | cons next rest => rw [List.intercalate_cons_cons, List.intercalate_cons_cons]; rfl

theorem getLast?_splitChars_concat (a : List α) (other : isSep c = false) :
    (splitChars isSep (a ++ [c])).getLast? ≠ some [] := by
  induction a with
  | nil => simp [splitChars, other]
  | cons d a ih =>
    obtain ⟨piece, rest, pieces⟩ :=
      List.exists_cons_of_ne_nil (splitChars_ne_nil isSep (a ++ [c]))
    rw [List.cons_append]
    cases at_ : isSep d with
    | true => rwa [splitChars_cons_of_sep at_, pieces, List.getLast?_cons_cons, ← pieces]
    | false =>
      rw [splitChars_cons_of_other at_ pieces]
      rw [pieces] at ih
      cases rest with
      | nil => simp
      | cons next rest => rwa [List.getLast?_cons_cons] at ih ⊢

theorem intercalate_concat (separator : List α) {parts : List (List α)}
    (several : parts ≠ []) (last : List α) :
    separator.intercalate (parts ++ [last]) = separator.intercalate parts ++ separator ++ last := by
  induction parts with
  | nil => exact absurd rfl several
  | cons part parts ih =>
    cases parts with
    | nil => simp [List.intercalate_cons_cons]
    | cons next parts =>
      have later := ih (List.cons_ne_nil _ _)
      rw [List.cons_append] at later
      rw [List.cons_append, List.cons_append, List.intercalate_cons_cons, later,
        List.intercalate_cons_cons]
      simp only [List.append_assoc]

theorem mem_intercalate {separator : List α} {parts : List (List α)} {a : α}
    (member : a ∈ separator.intercalate parts) : a ∈ separator ∨ ∃ part ∈ parts, a ∈ part := by
  induction parts with
  | nil => cases member
  | cons part parts ih =>
    cases parts with
    | nil => exact .inr ⟨part, List.mem_singleton_self part, by simpa using member⟩
    | cons next parts =>
      rw [List.intercalate_cons_cons, List.append_assoc] at member
      rcases List.mem_append.1 member with here | later
      · exact .inr ⟨part, List.mem_cons_self, here⟩
      · rcases List.mem_append.1 later with gap | others
        · exact .inl gap
        · refine (ih others).imp id ?_
          rintro ⟨other, there, inside⟩
          exact ⟨other, List.mem_cons_of_mem part there, inside⟩

theorem infix_intercalate (separator : List α) {parts : List (List α)} {part : List α}
    (member : part ∈ parts) : part <:+: separator.intercalate parts := by
  induction parts with
  | nil => cases member
  | cons first parts ih =>
    cases parts with
    | nil =>
      obtain rfl := List.mem_singleton.1 member
      have only : separator.intercalate [part] = part := List.intercalate_singleton
      exact only.symm ▸ List.infix_refl part
    | cons next parts =>
      rw [List.intercalate_cons_cons]
      rcases List.mem_cons.1 member with rfl | later
      · rw [List.append_assoc]
        exact (List.prefix_append _ _).isInfix
      · exact (ih later).trans (List.suffix_append _ _).isInfix

/-! ## Lines

A line may lack the carriage return at the end of its piece, and an empty last piece is no line. -/

section Lines

theorem dropReturn_cases (cs : List Char) : dropReturn cs = cs ∨ cs = dropReturn cs ++ ['\r'] := by
  unfold dropReturn
  split
  · next rest turned =>
    right
    rw [← List.reverse_reverse cs, turned, List.reverse_cons]
  · exact .inl rfl

theorem lineChars_concat {cs last : List Char} {pieces : List (List Char)}
    (split : splitChars (· == '\n') cs = pieces ++ [last]) :
    lineChars cs = pieces.map dropReturn ++ if last = [] then [] else [last] := by
  have turned : (pieces ++ [last]).reverse = last :: pieces.reverse := by simp
  rw [lineChars, split, turned]
  cases last with
  | nil => simp
  | cons c last => simp

theorem exists_piece_of_line {cs line : List Char} {n : Nat}
    (found : (lineChars cs)[n]? = some line) :
    ∃ back, (splitChars (· == '\n') cs)[n]? = some (line ++ back) := by
  obtain ⟨pieces, last, split⟩ := (splitChars (· == '\n') cs).eq_nil_or_concat.resolve_left
    (splitChars_ne_nil _ cs)
  rw [List.concat_eq_append] at split
  rw [lineChars_concat split] at found
  rw [split]
  by_cases early : n < pieces.length
  · rw [List.getElem?_append_left (by simpa using early), List.getElem?_map] at found
    obtain ⟨piece, there, rfl⟩ := Option.map_eq_some_iff.1 found
    rw [List.getElem?_append_left early, there]
    rcases dropReturn_cases piece with same | longer
    · exact ⟨[], by rw [same, List.append_nil]⟩
    · exact ⟨['\r'], by rw [← longer]⟩
  · rw [List.getElem?_append_right (by simpa using early), List.length_map] at found
    rw [List.getElem?_append_right (Nat.le_of_not_lt early)]
    split at found
    · cases found
    · exact ⟨[], by rw [found, List.append_nil]⟩

end Lines

end CodeOutline.Text
