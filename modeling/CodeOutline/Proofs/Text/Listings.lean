import CodeOutline.Proofs.Text.Pieces
import CodeOutline.Proofs.Text.Trimming

/-!
Words put together with spaces, and parts put together with commas. Taken apart again, such a text
gives the words if no blank stands in them, and the parts if no comma stands in them and no blank
at their ends.
-/

set_option autoImplicit false

namespace CodeOutline.Text

variable {c : Char} {word : List Char}

/-! Words -/

theorem wordChars_append_blank (xs ys : List Char) (blank : isBlank c = true) :
    wordChars (xs ++ c :: ys) = wordChars xs ++ wordChars ys := by
  rw [wordChars, splitChars_append_sep _ _ blank, List.filter_append, wordChars, wordChars]

theorem wordChars_of_solid (filled : word ≠ []) (solid : ∀ c ∈ word, isBlank c = false) :
    wordChars word = [word] := by
  rw [wordChars, splitChars_of_others solid]
  exact List.filter_cons_of_pos (by simpa [List.isEmpty_iff] using filled)

theorem words_intercalate {ws : List String}
    (solid : ∀ w ∈ ws, w ≠ "" ∧ ∀ c ∈ w.toList, isBlank c = false) :
    words (" ".intercalate ws) = ws := by
  induction ws with
  | nil => rfl
  | cons w ws ih =>
    obtain ⟨⟨filled, solid⟩, later⟩ := List.forall_mem_cons.1 solid
    have first : wordChars w.toList = [w.toList] := wordChars_of_solid (by simpa using filled) solid
    cases ws with
    | nil =>
      rw [String.intercalate_singleton, words, first, List.map_singleton, String.ofList_toList]
    | cons next ws =>
      have parts : (" ".intercalate (w :: next :: ws)).toList =
          w.toList ++ ' ' :: (" ".intercalate (next :: ws)).toList := by
        simp [String.intercalate_cons_cons]
      rw [words, parts, wordChars_append_blank _ _ (by decide), first, List.map_append, ← words,
        ih later, List.map_singleton, String.ofList_toList, List.singleton_append]

theorem trim_intercalate {w : String} {ws : List String}
    (solid : ∀ v ∈ w :: ws, v ≠ "" ∧ ∀ c ∈ v.toList, isBlank c = false) :
    trim (" ".intercalate (w :: ws)) = " ".intercalate (w :: ws) ∧
      " ".intercalate (w :: ws) ≠ "" := by
  induction ws generalizing w with
  | nil =>
    obtain ⟨filled, solid⟩ := solid w List.mem_cons_self
    rw [String.intercalate_singleton, trim, trimChars_of_solid solid, String.ofList_toList]
    exact ⟨rfl, filled⟩
  | cons next ws ih =>
    obtain ⟨⟨filled, solid⟩, later⟩ := List.forall_mem_cons.1 solid
    obtain ⟨trimmed, more⟩ := ih later
    have first : trim w = w := by rw [trim, trimChars_of_solid solid, String.ofList_toList]
    rw [String.intercalate_cons_cons]
    refine ⟨trim_between first filled trimmed more " ", ?_⟩
    simp [filled]

/-! Parts -/

theorem trim_splitChars_commas {lead : List Char} (blank : ∀ c ∈ lead, isBlank c = true)
    {parts : List (List Char)}
    (plain : ∀ part ∈ parts, part ≠ [] ∧ ',' ∉ part ∧ trimChars part = part) :
    ((splitChars (· == ',') (lead ++ ", ".toList.intercalate parts)).map
        trimChars).filter (fun piece => !piece.isEmpty) = parts := by
  have noComma : ∀ c ∈ lead, (c == ',') = false := by
    intro c member
    refine beq_eq_false_iff_ne.2 ?_
    rintro rfl
    exact absurd (blank _ member) (by decide)
  induction parts generalizing lead with
  | nil =>
    have nothing : trimChars lead = [] := by
      have trimmed := blanks_append_trimChars blank []
      rwa [List.append_nil] at trimmed
    rw [List.intercalate_nil, List.append_nil, splitChars_of_others noComma,
      List.map_singleton, nothing]
    rfl
  | cons part parts ih =>
    obtain ⟨⟨filled, absent, trim⟩, later⟩ := List.forall_mem_cons.1 plain
    have kept : (!part.isEmpty) = true := by simpa [List.isEmpty_iff] using filled
    have others : ∀ c ∈ lead ++ part, (c == ',') = false := by
      intro c member
      rcases List.mem_append.1 member with front | inside
      · exact noComma c front
      · exact beq_eq_false_iff_ne.2 (fun same => absent (same ▸ inside))
    have trimmed : trimChars (lead ++ part) = part := by
      rw [blanks_append_trimChars blank, trim]
    cases parts with
    | nil =>
      rw [List.intercalate_singleton, splitChars_of_others others, List.map_singleton, trimmed]
      exact List.filter_cons_of_pos kept
    | cons next parts =>
      have space : ∀ c ∈ [' '], isBlank c = true := List.forall_mem_singleton.2 (by decide)
      have front : lead ++ ", ".toList.intercalate (part :: next :: parts) =
          (lead ++ part) ++ ',' :: ([' '] ++ ", ".toList.intercalate (next :: parts)) := by
        rw [List.intercalate_cons_cons]
        simp
      rw [front, splitChars_append_sep _ _ (by decide), splitChars_of_others others,
        List.singleton_append, List.map_cons, trimmed]
      refine (List.filter_cons_of_pos (p := fun piece : List Char => !piece.isEmpty) kept).trans ?_
      rw [ih space later (List.forall_mem_singleton.2 (by decide))]

theorem trim_splitAt_commas {parts : List String}
    (plain : ∀ part ∈ parts, part ≠ "" ∧ ',' ∉ part.toList ∧ trim part = part) :
    ((splitAt ',' (", ".intercalate parts)).map trim).filter (fun piece => !piece.isEmpty) =
      parts := by
  have plainChars : ∀ part ∈ parts.map String.toList,
      part ≠ [] ∧ ',' ∉ part ∧ trimChars part = part := by
    intro part member
    obtain ⟨s, here, rfl⟩ := List.mem_map.1 member
    obtain ⟨filled, absent, trimmed⟩ := plain s here
    exact ⟨by simpa using filled, absent, trimChars_of_trim trimmed⟩
  have apart := trim_splitChars_commas (List.forall_mem_nil _) plainChars
  have trims : (splitAt ',' (", ".intercalate parts)).map trim =
      ((splitChars (· == ',') (", ".intercalate parts).toList).map trimChars).map String.ofList := by
    rw [splitAt, List.map_map, List.map_map]
    refine List.map_congr_left (fun piece _ => ?_)
    simp [trim]
  have empties : (fun s : String => !s.isEmpty) ∘ String.ofList = fun piece => !piece.isEmpty := by
    funext piece
    cases piece <;> simp
  rw [trims, List.filter_map, empties, String.toList_intercalate]
  rw [List.nil_append] at apart
  rw [apart, List.map_map]
  simp

end CodeOutline.Text
