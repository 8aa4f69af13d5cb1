import CodeOutline.Proofs.FileSystem.Paths

/-!
Paths as they are seen from a directory. Seen from there, two paths are spelled alike only if
they have the same components, provided that each of them is absolute or was joined to the
directory.
-/

set_option autoImplicit false

namespace CodeOutline.Path

open Text

/-! Pieces and components -/

/-- The pieces of a path that are not empty. -/
def filled (path : RawText) : List RawText := (pieces path).filter (fun piece => !piece.isEmpty)

def telling (path : RawText) : List RawText :=
  (pieces path).filter (fun piece => !saysNothing piece)

private def lead (isRooted : Bool) (pieces : List RawText) : List Component :=
  if isRooted then [.root] else if pieces.head? = some (RawText.ofText ".") then [.here] else []

private def isNamed (c : Component) : Bool := c != .root && c != .here

private theorem filter_filter_telling (pieces : List RawText) :
    (pieces.filter (fun piece => !piece.isEmpty)).filter (· != RawText.ofText ".") =
      pieces.filter (fun piece => !saysNothing piece) := by
  rw [List.filter_filter]
  congr 1
  funext piece
  simp [saysNothing, bne, Bool.and_comm]

private theorem telling_eq (path : RawText) :
    telling path = (filled path).filter (· != RawText.ofText ".") :=
  (filter_filter_telling _).symm

private theorem components_eq (path : RawText) :
    components path = lead (isAbsolute path) (filled path) ++ (telling path).map component := by
  rw [telling_eq]
  rfl

theorem piece_component (piece : RawText) : (component piece).piece = piece := by
  unfold component
  split
  · next parent => exact parent.symm
  · rfl

private theorem isNamed_component (piece : RawText) : isNamed (component piece) = true := by
  unfold component
  split <;> rfl

private theorem lead_cases (isRooted : Bool) (pieces : List RawText) :
    lead isRooted pieces = [] ∨ lead isRooted pieces = [.root] ∨
      lead isRooted pieces = [.here] := by
  unfold lead
  repeat' split
  all_goals simp

/-- The components are those of the pieces that tell something, with what the path begins with in
front. -/
theorem exists_lead (path : RawText) :
    ∃ front, (front = [] ∨ front = [.root] ∨ front = [.here]) ∧
      (isAbsolute path = true ↔ front = [.root]) ∧
      components path = front ++ (telling path).map component := by
  refine ⟨_, lead_cases _ _, ?_, components_eq path⟩
  unfold lead
  split
  · next rooted => simp [rooted]
  · next relative =>
    simp only [relative]
    split <;> simp

private theorem lead_cons (isRooted : Bool) (piece : RawText) (rest more : List RawText) :
    lead isRooted (piece :: rest) = lead isRooted (piece :: more) := by
  by_cases here : piece = "."
  · subst here
    rfl
  · simp [lead, here]

private theorem named_components (path : RawText) :
    (components path).filter isNamed = (telling path).map component := by
  have named : ((telling path).map component).filter isNamed = (telling path).map component := by
    rw [List.filter_eq_self]
    simp [isNamed_component]
  rw [components_eq, List.filter_append, named]
  rcases lead_cases (isAbsolute path) (filled path) with empty | root | here
  · rw [empty]; rfl
  · rw [root]; rfl
  · rw [here]; rfl

private theorem isNamed_of_mem_tail (path : RawText) {c : Component}
    (later : c ∈ (components path).tail) : isNamed c = true := by
  have mapped : c ∈ (telling path).map component := by
    rw [components_eq] at later
    rcases lead_cases (isAbsolute path) (filled path) with empty | root | here
    · rw [empty, List.nil_append] at later
      exact List.mem_of_mem_tail later
    · rwa [root] at later
    · rwa [here] at later
  obtain ⟨piece, -, rfl⟩ := List.mem_map.1 mapped
  exact isNamed_component piece

private theorem filled_ne_nil {path : RawText} (written : path ≠ "")
    (relative : isAbsolute path = false) : filled path ≠ [] := by
  obtain ⟨_ | ⟨b, bs⟩⟩ := path
  · exact absurd rfl written
  · have other : (b == slash) = false := by simpa [isAbsolute] using relative
    obtain ⟨piece, rest, split⟩ := List.exists_cons_of_ne_nil (splitChars_ne_nil (· == slash) bs)
    have cut : splitChars (· == slash) (b :: bs) = (b :: piece) :: rest :=
      @splitChars_cons_of_other _ (· == slash) _ _ other _ _ split
    rw [filled, pieces, cut, List.map_cons, List.filter_cons_of_pos (by rfl)]
    exact List.cons_ne_nil _ _

private theorem components_ne_nil {path : RawText} (written : path ≠ "") :
    components path ≠ [] := by
  rw [components_eq, telling_eq]
  cases rooted : isAbsolute path with
  | true => simp [lead]
  | false =>
    obtain ⟨first, rest, split⟩ := List.exists_cons_of_ne_nil (filled_ne_nil written rooted)
    rw [split]
    by_cases here : first = "."
    · subst here
      simp [lead]
    · simp [here]

private theorem components_append {path base : RawText} (written : base ≠ "")
    (same : isAbsolute path = isAbsolute base) {more : List RawText}
    (pieces : filled path = filled base ++ more) :
    components path = components base ++ (more.filter (· != RawText.ofText ".")).map component := by
  have begins : lead (isAbsolute path) (filled path) = lead (isAbsolute base) (filled base) := by
    rw [same]
    cases rooted : isAbsolute base with
    | true => rfl
    | false =>
      obtain ⟨first, rest, split⟩ := List.exists_cons_of_ne_nil (filled_ne_nil written rooted)
      rw [pieces, split, List.cons_append]
      exact lead_cons ..
  rw [components_eq, components_eq base, begins, telling_eq, telling_eq, pieces,
    List.filter_append, List.map_append, List.append_assoc]

private theorem filled_joinRaw (base : RawText) {path : RawText}
    (relative : isAbsolute path = false) :
    filled (joinRaw base path) = filled base ++ filled path := by
  rcases joinRaw_cases relative base with ⟨rfl, joined⟩ | ⟨front, rfl, joined⟩ | ⟨-, joined⟩
  · rw [joined]
    rfl
  · have last : filled ⟨front ++ [slash]⟩ = filled ⟨front⟩ := by
      rw [filled, pieces_concat_slash, List.filter_append]
      exact List.append_nil _
    rw [last, filled, joined, pieces_append_slash, List.filter_append]
    rfl
  · rw [filled, joined, pieces_append_slash, List.filter_append]
    rfl

theorem components_prefix_joinRaw (base : RawText) {path : RawText}
    (relative : isAbsolute path = false) : components base <+: components (joinRaw base path) := by
  by_cases empty : base = ""
  · subst empty
    exact List.nil_prefix
  · rw [components_append empty (isAbsolute_joinRaw base relative) (filled_joinRaw base relative)]
    exact List.prefix_append ..

private theorem components_of_below {base path : RawText} (begun : components base ≠ [])
    (below : components base <+: components path) :
    components path = components base ++
      ((telling path).drop ((components base).filter isNamed).length).map component := by
  obtain ⟨rest, whole⟩ := below
  have named : rest.filter isNamed = rest := by
    rw [List.filter_eq_self]
    intro c member
    apply isNamed_of_mem_tail path
    rw [← whole, List.tail_append_of_ne_nil begun]
    exact List.mem_append_right _ member
  have parts : (telling path).map component = (components base).filter isNamed ++ rest := by
    rw [← named_components, ← whole, List.filter_append, named]
  rw [List.map_drop, parts, List.drop_left, whole]

/-! Pieces put together again -/

theorem ofPieces_cons_cons (first next : RawText) (more : List RawText) :
    ofPieces (first :: next :: more) =
      ⟨first.bytes ++ slash :: (ofPieces (next :: more)).bytes⟩ := by
  rw [ofPieces, List.map_cons, List.map_cons, List.intercalate_cons_cons, List.append_assoc,
    List.singleton_append]
  rfl

@[simp]
theorem ofPieces_singleton (piece : RawText) : ofPieces [piece] = piece := by
  rw [ofPieces, List.map_singleton, List.intercalate_singleton]

theorem pieces_ofPieces {first : RawText} {more : List RawText}
    (single : ∀ piece ∈ first :: more, pieces piece = [piece]) :
    pieces (ofPieces (first :: more)) = first :: more := by
  induction more generalizing first with
  | nil => simpa using single
  | cons next more ih =>
    rw [List.forall_mem_cons] at single
    rw [ofPieces_cons_cons, pieces_append_slash, single.1, ih single.2]
    rfl

theorem pieces_of_mem {path piece : RawText} (member : piece ∈ pieces path) :
    pieces piece = [piece] := by
  obtain ⟨bytes, inside, rfl⟩ := List.mem_map.1 member
  rw [pieces, splitChars_of_others (others_of_mem_splitChars inside)]
  rfl

private theorem dropEnd_isPrefixOf (pieces : List RawText) : dropEnd pieces <+: pieces := by
  rw [← List.reverse_suffix, dropEnd, List.reverse_reverse]
  exact List.dropWhile_suffix _

private theorem filter_dropWhile (pieces : List RawText) :
    (pieces.dropWhile saysNothing).filter (fun piece => !saysNothing piece) =
      pieces.filter (fun piece => !saysNothing piece) := by
  induction pieces with
  | nil => rfl
  | cons piece pieces ih =>
    cases quiet : saysNothing piece with
    | true => simpa [quiet] using ih
    | false => simp [quiet]

private theorem filter_dropEnd (pieces : List RawText) :
    (dropEnd pieces).filter (fun piece => !saysNothing piece) =
      pieces.filter (fun piece => !saysNothing piece) := by
  rw [dropEnd, List.filter_reverse, filter_dropWhile, List.filter_reverse, List.reverse_reverse]

private theorem filter_dropPieces (count : Nat) (pieces : List RawText) :
    (dropPieces count pieces).filter (fun piece => !saysNothing piece) =
      (pieces.filter (fun piece => !saysNothing piece)).drop count := by
  induction pieces generalizing count with
  | nil => cases count <;> rfl
  | cons piece pieces ih =>
    cases count with
    | zero => rfl
    | succ count =>
      rw [dropPieces]
      cases quiet : saysNothing piece with
      | true => simpa [quiet] using ih (count + 1)
      | false => simpa [quiet] using ih count

private theorem dropPieces_suffix (count : Nat) (pieces : List RawText) :
    dropPieces count pieces <:+ pieces := by
  induction pieces generalizing count with
  | nil => cases count <;> exact List.suffix_refl _
  | cons piece pieces ih =>
    cases count with
    | zero => exact List.suffix_refl _
    | succ count =>
      rw [dropPieces]
      split
      · exact (ih _).trans (List.suffix_cons ..)
      · exact (ih _).trans (List.suffix_cons ..)

private theorem ends_telling (pieces : List RawText) {last : RawText}
    (ends : (dropEnd pieces).getLast? = some last) : saysNothing last = false := by
  rw [dropEnd, List.getLast?_reverse] at ends
  have stops := List.head?_dropWhile_not saysNothing pieces.reverse
  rw [ends] at stops
  simpa using stops

theorem isAbsolute_iff_pieces (path : RawText) :
    isAbsolute path = true ↔ path ≠ "" ∧ (pieces path).head? = some (RawText.ofText "") := by
  obtain ⟨_ | ⟨b, bs⟩⟩ := path
  · decide
  cases rooted : b == slash with
  | true =>
    have cut : splitChars (· == slash) (b :: bs) = [] :: splitChars (· == slash) bs :=
      splitChars_cons_of_sep rooted
    rw [pieces, cut]
    refine iff_of_true ?_ ⟨RawText.isEmpty_eq_false_iff.1 rfl, rfl⟩
    rwa [isAbsolute, List.head?_cons, Option.some_beq_some]
  | false =>
    obtain ⟨piece, rest, split⟩ := List.exists_cons_of_ne_nil (splitChars_ne_nil (· == slash) bs)
    have cut : splitChars (· == slash) (b :: bs) = (b :: piece) :: rest :=
      @splitChars_cons_of_other _ (· == slash) _ _ rooted _ _ split
    rw [pieces, cut]
    have first : (⟨b :: piece⟩ : RawText) ≠ "" := RawText.isEmpty_eq_false_iff.1 rfl
    refine iff_of_false ?_ (fun empty => first (Option.some.inj empty.2))
    rw [isAbsolute, List.head?_cons, Option.some_beq_some, rooted]
    exact Bool.false_ne_true

/-! Paths as they are seen from a directory -/

private theorem components_dropEnd (path : RawText) {first : RawText} {more : List RawText}
    (kept : dropEnd (pieces path) = first :: more) :
    components (ofPieces (first :: more)) = components path := by
  have quiet := filter_dropEnd (pieces path)
  obtain ⟨silent, joined⟩ := dropEnd_isPrefixOf (pieces path)
  rw [kept] at joined quiet
  have parts : pieces (ofPieces (first :: more)) = first :: more :=
    pieces_ofPieces (fun piece member => pieces_of_mem (joined ▸ List.mem_append_left _ member))
  have seen : ofPieces (first :: more) ≠ "" := by
    intro empty
    have alone : pieces "" = [RawText.ofText ""] := rfl
    rw [empty, alone] at parts
    obtain ⟨rfl, rfl⟩ := List.cons.inj parts
    exact absurd (ends_telling _ (by rw [kept]; rfl)) (by decide)
  have written : path ≠ "" := by
    rintro rfl
    cases kept
  have same : isAbsolute path = isAbsolute (ofPieces (first :: more)) := by
    rw [Bool.eq_iff_iff, isAbsolute_iff_pieces, isAbsolute_iff_pieces, parts, ← joined]
    simp [seen, written]
  have nothing : silent.filter (fun piece => !saysNothing piece) = [] := by
    rw [← joined, List.filter_append] at quiet
    exact List.self_eq_append_right.1 quiet
  have goesOn : filled path = filled (ofPieces (first :: more)) ++
      silent.filter (fun piece => !piece.isEmpty) := by
    rw [filled, filled, parts, ← joined, List.filter_append]
  rw [components_append seen same goesOn, filter_filter_telling, nothing]
  exact (List.append_nil _).symm

private theorem components_relativeTo_empty (path : RawText) :
    components (relativeTo "" path) = components path := by
  rw [relativeTo, if_pos (by rfl)]
  cases kept : dropEnd (pieces path) with
  | nil =>
    -- all pieces say nothing, so that the path is the root, the place where one is, or empty
    have silent : telling path = [] := by rw [telling, ← filter_dropEnd, kept]; rfl
    have only : components path = lead (isAbsolute path) (filled path) := by
      rw [components_eq, silent]
      exact List.append_nil _
    rw [only]
    rcases lead_cases (isAbsolute path) (filled path) with empty | root | here
    · rw [empty]; decide
    · rw [root]; decide
    · rw [here]; decide
  | cons first more => exact components_dropEnd path kept

section Below

variable {base path : RawText}

private theorem relativeTo_of_below (written : base ≠ "")
    (below : components base <+: components path) :
    ∃ rest, relativeTo base path = ofPieces rest ∧
      (∀ piece ∈ rest, pieces piece = [piece]) ∧
      (∀ piece, rest.head? = some piece → saysNothing piece = false) ∧
      rest.filter (fun piece => !saysNothing piece) =
        (telling path).drop ((components base).filter isNamed).length := by
  let named := (components base).filter isNamed
  let rest := (dropPieces named.length (pieces path)).dropWhile saysNothing
  have kept : dropEnd rest <+: rest := dropEnd_isPrefixOf rest
  refine ⟨dropEnd rest, ?_, ?_, ?_, ?_⟩
  · rw [relativeTo, if_neg (by simpa using written), if_pos (List.isPrefixOf_iff_prefix.2 below)]
    rfl
  · intro piece member
    have suffix : rest <:+ pieces path :=
      (List.dropWhile_suffix _).trans (dropPieces_suffix ..)
    exact pieces_of_mem (suffix.mem (kept.mem member))
  · intro piece first
    have stops := List.head?_dropWhile_not saysNothing (dropPieces named.length (pieces path))
    obtain ⟨more, joined⟩ := kept
    have first : rest.head? = some piece := by
      rw [← joined, List.head?_append, first]
      rfl
    simpa [rest, first] using stops
  · rw [filter_dropEnd, filter_dropWhile, filter_dropPieces]
    rfl

private theorem isAbsolute_relativeTo (written : base ≠ "")
    (below : components base <+: components path) : isAbsolute (relativeTo base path) = false := by
  obtain ⟨rest, seen, single, begins, -⟩ := relativeTo_of_below written below
  rw [seen]
  cases rest with
  | nil => decide
  | cons piece rest =>
    rw [← Bool.not_eq_true, isAbsolute_iff_pieces, pieces_ofPieces single]
    rintro ⟨-, first⟩
    obtain rfl := Option.some.inj first
    exact absurd (begins "" rfl) (by decide)

private theorem telling_relativeTo (written : base ≠ "")
    (below : components base <+: components path) :
    telling (relativeTo base path) =
      (telling path).drop ((components base).filter isNamed).length := by
  obtain ⟨rest, seen, single, -, behind⟩ := relativeTo_of_below written below
  rw [seen, ← behind]
  cases rest with
  | nil => decide
  | cons piece rest => rw [telling, pieces_ofPieces single]

private theorem join_places (written : base ≠ "") (path : RawText) :
    components base <+: components (joinRaw base path) ∨
      isAbsolute (joinRaw base path) = true ∧ 
        relativeTo base (joinRaw base path) = joinRaw base path := by
  by_cases below : components base <+: components (joinRaw base path)
  · exact .inl below
  · refine .inr ⟨?_, ?_⟩
    · cases rooted : isAbsolute path with
      | true => rwa [joinRaw, if_pos rooted]
      | false => exact absurd (components_prefix_joinRaw base rooted) below
    · rw [relativeTo, if_neg (by simpa using written),
        if_neg (by rwa [List.isPrefixOf_iff_prefix])]

end Below

/-- Seen from the directory that they were joined to, two paths are spelled alike only if they
have the same components. -/
theorem components_eq_of_relativeTo_eq {base a b : RawText}
    (alike : relativeTo base (joinRaw base a) = relativeTo base (joinRaw base b)) :
    components (joinRaw base a) = components (joinRaw base b) := by
  by_cases empty : base = ""
  · subst empty
    rw [← components_relativeTo_empty, alike, components_relativeTo_empty]
  rcases join_places empty a with belowA | ⟨rootedA, seenA⟩ <;>
    rcases join_places empty b with belowB | ⟨rootedB, seenB⟩
  · have begun := components_ne_nil empty
    rw [components_of_below begun belowA, components_of_below begun belowB,
      ← telling_relativeTo empty belowA, ← telling_relativeTo empty belowB, alike]
  · rw [← alike.trans seenB, isAbsolute_relativeTo empty belowA] at rootedB
    cases rootedB
  · rw [← alike.symm.trans seenA, isAbsolute_relativeTo empty belowB] at rootedA
    cases rootedA
  · rw [← seenA, alike, seenB]

/-! Paths that are shown as they are -/

theorem ofPieces_pieces (path : RawText) : ofPieces (pieces path) = path := by
  rw [ofPieces, pieces, List.map_map]
  exact congrArg RawText.mk ((congrArg _ (List.map_id _)).trans (intercalate_splitChars ..))

theorem isText_ofPieces {pieces : List RawText} (text : ∀ piece ∈ pieces, piece.IsText) :
    (ofPieces pieces).IsText := by
  induction pieces with
  | nil => exact ⟨"", rfl⟩
  | cons first more ih =>
    obtain ⟨here, later⟩ := List.forall_mem_cons.1 text
    cases more with
    | nil => rwa [ofPieces_singleton]
    | cons next more =>
      obtain ⟨s, rfl⟩ := here
      obtain ⟨t, rest⟩ := ih later
      exact ⟨s ++ "/" ++ t, by rw [ofPieces_cons_cons, rest, ofText_slash]⟩

section Shown

variable {path : RawText} (text : ∀ c ∈ components path, c.piece.IsText)

include text

private theorem isText_of_mem_pieces {piece : RawText} (member : piece ∈ pieces path) :
    piece.IsText := by
  cases quiet : saysNothing piece with
  | true =>
    rw [saysNothing, Bool.or_eq_true, RawText.isEmpty_iff, beq_iff_eq] at quiet
    rcases quiet with rfl | rfl
    · exact RawText.isText_ofText ""
    · exact RawText.isText_ofText "."
  | false =>
    have tells : piece ∈ telling path := List.mem_filter.2 ⟨member, by simp [quiet]⟩
    have inside : component piece ∈ components path := by
      rw [components_eq]
      exact List.mem_append_right _ (List.mem_map_of_mem tells)
    exact piece_component piece ▸ text _ inside

theorem isText_relativeTo (base : RawText) : (relativeTo base path).IsText := by
  have some_ {rest : List RawText} (sub : rest.Sublist (pieces path)) : (ofPieces rest).IsText :=
    isText_ofPieces (fun piece member => isText_of_mem_pieces text (sub.subset member))
  have ends (rest : List RawText) : (dropEnd rest).Sublist rest :=
    (dropEnd_isPrefixOf rest).sublist
  unfold relativeTo
  split
  · split
    · unfold ofComponents
      split
      · exact RawText.isText_ofText "/"
      · exact isText_ofPieces (List.forall_mem_map.2 text)
    · exact some_ (ends _)
  · split
    · exact some_ ((ends _).trans ((List.dropWhile_sublist _).trans (dropPieces_suffix ..).sublist))
    · rw [← ofPieces_pieces path]
      exact some_ (List.Sublist.refl _)

end Shown

/-! Names joined to a path -/

/-- A name that something in a directory can have. -/
def IsName (name : RawText) : Prop :=
  name ≠ "" ∧ name ≠ "." ∧ name ≠ ".." ∧ slash ∉ name.bytes

instance (name : RawText) : Decidable (IsName name) := inferInstanceAs (Decidable (_ ∧ _))

section Names

variable {name path : RawText} {names : List RawText}

theorem IsName.relative (is : IsName name) : isAbsolute name = false := by
  rw [← Bool.not_eq_true, isAbsolute, beq_iff_eq]
  exact fun rooted => is.2.2.2 (List.mem_of_mem_head? rooted)

theorem IsName.component (is : IsName name) : component name = .name name := if_neg is.2.2.1

theorem IsName.pieces (is : IsName name) : pieces name = [name] := by
  have others : ∀ b ∈ name.bytes, (b == slash) = false := by
    intro b member
    exact beq_eq_false_iff_ne.2 (fun same => is.2.2.2 (same ▸ member))
  rw [Path.pieces, splitChars_of_others others]
  rfl

theorem IsName.filled (is : IsName name) : filled name = [name] := by
  rw [Path.filled, is.pieces]
  simp [is.1]

theorem IsName.bytes_ne_nil (is : IsName name) : name.bytes ≠ [] := by
  rw [ne_eq, ← List.isEmpty_iff, ← RawText.isEmpty, RawText.isEmpty_iff]
  exact is.1

theorem joinRaw_ne_empty (path : RawText) (is : IsName name) : joinRaw path name ≠ "" := by
  rw [ne_eq, ← RawText.isEmpty_iff, RawText.isEmpty, List.isEmpty_iff]
  rcases joinRaw_cases is.relative path with ⟨-, joined⟩ | ⟨front, -, joined⟩ | ⟨-, joined⟩
  all_goals
    rw [joined]
    simp [is.bytes_ne_nil]

theorem components_joinRaw (written : path ≠ "") (is : IsName name) :
    components (joinRaw path name) = components path ++ [.name name] := by
  have more : filled (joinRaw path name) = filled path ++ [name] := by
    rw [filled_joinRaw path is.relative, is.filled]
  rw [components_append written (isAbsolute_joinRaw path is.relative) more,
    List.filter_cons_of_pos (by simpa using is.2.1), List.filter_nil, List.map_singleton,
    is.component]

theorem components_foldl_joinRaw (written : path ≠ "") (are : ∀ name ∈ names, IsName name) :
    components (names.foldl joinRaw path) = components path ++ names.map .name := by
  induction names generalizing path with
  | nil => simp
  | cons name names ih =>
    obtain ⟨is, later⟩ := List.forall_mem_cons.1 are
    rw [List.foldl_cons, ih (joinRaw_ne_empty path is) later, components_joinRaw written is,
      List.append_assoc, List.map_cons, List.singleton_append]

theorem joinRaw_append (path : RawText) (is : IsName name) (rest : List UInt8) :
    joinRaw path ⟨name.bytes ++ rest⟩ = ⟨(joinRaw path name).bytes ++ rest⟩ := by
  have relative : isAbsolute ⟨name.bytes ++ rest⟩ = false := by
    rw [isAbsolute_append is.bytes_ne_nil]
    exact is.relative
  rw [joinRaw, joinRaw, relative, is.relative, if_neg Bool.false_ne_true,
    if_neg Bool.false_ne_true]
  split <;> simp only [List.append_assoc, List.cons_append]

theorem relative_ofPieces (is : IsName name) (names : List RawText) :
    isAbsolute (ofPieces (name :: names)) = false := by
  cases names with
  | nil => rw [ofPieces_singleton, is.relative]
  | cons next names =>
    rw [ofPieces_cons_cons, isAbsolute_append is.bytes_ne_nil]
    exact is.relative

theorem foldl_joinRaw (path : RawText) (are : ∀ name ∈ names, IsName name) (several : names ≠ []) :
    names.foldl joinRaw path = joinRaw path (ofPieces names) := by
  induction names generalizing path with
  | nil => exact absurd rfl several
  | cons name names ih =>
    obtain ⟨is, later⟩ := List.forall_mem_cons.1 are
    cases names with
    | nil => rw [List.foldl_cons, List.foldl_nil, ofPieces_singleton]
    | cons next names =>
      have bare : (joinRaw path name).bytes.getLast? ≠ some slash := by
        intro slashed
        have inside := getLast?_joinRaw path is.bytes_ne_nil ▸ slashed
        exact is.2.2.2 (List.mem_of_getLast? inside)
      have relative := relative_ofPieces (later next List.mem_cons_self) names
      have behind : joinRaw (joinRaw path name) (ofPieces (next :: names)) =
          ⟨(joinRaw path name).bytes ++ slash :: (ofPieces (next :: names)).bytes⟩ := by
        rw [joinRaw, if_neg (by rw [relative]; exact Bool.false_ne_true),
          if_neg (by simp [bare, joinRaw_ne_empty path is])]
      rw [List.foldl_cons, ih _ later (List.cons_ne_nil _ _), behind, ofPieces_cons_cons,
        joinRaw_append path is]

end Names

end CodeOutline.Path
