import CodeOutline.Path
import CodeOutline.Proofs.Related
import CodeOutline.Proofs.Text.Bytes
import CodeOutline.Proofs.Text.Pieces

/-!
Where joined paths lead. The pieces of the second path are followed from where the first one
leads, so that only an absolute path or two dots too many lead away from there. And which of two
paths comes first: the one with the smaller component where they differ first, or that ends there,
so that only paths with the same components are in no order.
-/

set_option autoImplicit false

namespace CodeOutline

namespace RawText

@[simp]
theorem isEmpty_iff {r : RawText} : r.isEmpty = true ↔ r = "" := by
  obtain ⟨bytes⟩ := r
  rw [isEmpty, List.isEmpty_iff, RawText.mk.injEq]
  rfl

@[simp]
theorem isEmpty_eq_false_iff {r : RawText} : r.isEmpty = false ↔ r ≠ "" := by
  rw [← Bool.not_eq_true, isEmpty_iff]

@[simp]
theorem isEmpty_ofText (s : String) : (ofText s).isEmpty = s.isEmpty := by
  rw [Bool.eq_iff_iff, isEmpty_iff, ofText_inj, String.isEmpty_iff]

end RawText

namespace Path

open Text

/-! Paths that are text -/

theorem isAbsolute_ofText (path : String) :
    isAbsolute path = true ↔ path.toList.head? = some '/' := by
  rw [isAbsolute, RawText.bytes_ofText, beq_iff_eq]
  exact head?_bytes (d := '/') (by decide) path.toList

theorem getLast?_ofText (path : String) :
    (RawText.ofText path).bytes.getLast? = some slash ↔ endsWith path "/" = true := by
  have last := getLast?_bytes (d := '/') (by decide) path.toList
  rw [RawText.bytes_ofText, slash]
  refine last.trans ?_
  rw [List.getLast?_eq_head?_reverse, endsWith, dropEnd?, Option.isSome_map,
    show "/".toList.reverse = ['/'] from rfl]
  cases path.toList.reverse with
  | nil => simp [dropStart?]
  | cons c cs =>
    rw [List.head?_cons, Option.some.injEq, dropStart?]
    split
    · next same => simp [dropStart?, same.symm]
    · next other => simp [Ne.symm other]

theorem ofText_append (a b : String) :
    RawText.ofText (a ++ b) = ⟨(RawText.ofText a).bytes ++ (RawText.ofText b).bytes⟩ := by
  rw [RawText.bytes_ofText, RawText.bytes_ofText, ← bytes_append, ← String.toList_append,
    ← RawText.bytes_ofText]

theorem ofText_slash (a b : String) : RawText.ofText (a ++ "/" ++ b) =
    ⟨(RawText.ofText a).bytes ++ slash :: (RawText.ofText b).bytes⟩ := by
  have sign : (RawText.ofText "/").bytes = [slash] := rfl
  rw [ofText_append, ofText_append, sign, List.append_assoc, List.singleton_append]

theorem ofText_join (base path : String) :
    RawText.ofText (join base path) = joinRaw base path := by
  have ends : endsWith base "/" = ((RawText.ofText base).bytes.getLast? == some slash) := by
    rw [Bool.eq_iff_iff, beq_iff_eq, getLast?_ofText]
  unfold join joinRaw
  rw [RawText.isEmpty_ofText, ends]
  split
  · rfl
  · split
    · exact ofText_append base path
    · exact ofText_slash base path

theorem endsWith_slash_append (a : String) {b : String} (filled : b ≠ "") :
    endsWith (a ++ b) "/" = endsWith b "/" := by
  have last : (RawText.ofText b).bytes.getLast?.isSome = true := by
    rw [ne_eq, ← RawText.ofText_inj, ← RawText.isEmpty_iff, RawText.isEmpty] at filled
    simpa using filled
  rw [Bool.eq_iff_iff, ← getLast?_ofText, ← getLast?_ofText, ofText_append, List.getLast?_append,
    Option.or_of_isSome last]

theorem endsWith_slash_join (base : String) {path : String} (filled : path ≠ "") :
    endsWith (join base path) "/" = endsWith path "/" := by
  unfold join
  split
  · rfl
  · split <;> exact endsWith_slash_append _ filled

/-! Pieces -/

theorem pieces_ne_nil (path : RawText) : pieces path ≠ [] := by
  simpa [pieces] using splitChars_ne_nil (· == slash) path.bytes

theorem pieces_append_slash (a b : List UInt8) :
    pieces ⟨a ++ slash :: b⟩ = pieces ⟨a⟩ ++ pieces ⟨b⟩ := by
  rw [pieces, splitChars_append_sep a b (by decide), List.map_append]
  rfl

@[simp]
theorem enter_empty (names : List RawText) : enter names "" = names := by
  simp [enter]

theorem enter_name (names : List RawText) {piece : RawText} (named : piece.isEmpty = false)
    (notHere : piece ≠ ".") (notParent : piece ≠ "..") :
    enter names piece = names ++ [piece] := by
  simp [enter, named, notHere, notParent]

theorem joinRaw_cases {path : RawText} (relative : isAbsolute path = false) (base : RawText) :
    (base = "" ∧ joinRaw base path = path) ∨
      (∃ front, base = ⟨front ++ [slash]⟩ ∧ joinRaw base path = ⟨front ++ slash :: path.bytes⟩) ∨
      (base ≠ "" ∧ joinRaw base path = ⟨base.bytes ++ slash :: path.bytes⟩) := by
  unfold joinRaw
  rw [if_neg (by simp [relative])]
  by_cases empty : base = ""
  · subst empty
    exact .inl ⟨rfl, rfl⟩
  rw [RawText.isEmpty_eq_false_iff.2 empty, Bool.false_or]
  by_cases slashed : base.bytes.getLast? = some slash
  · obtain ⟨front, whole⟩ := List.getLast?_eq_some_iff.1 slashed
    refine .inr (.inl ⟨front, congrArg RawText.mk whole, ?_⟩)
    rw [if_pos (beq_iff_eq.2 slashed), whole, List.append_assoc, List.singleton_append]
  · exact .inr (.inr ⟨empty, if_neg (by simpa using slashed)⟩)

theorem pieces_concat_slash (front : List UInt8) :
    pieces ⟨front ++ [slash]⟩ = pieces ⟨front⟩ ++ [RawText.ofText ""] :=
  pieces_append_slash front []

/-- The pieces of the second path are followed from where the first one leads. What may stand
between them is an empty piece. -/
theorem foldl_enter_joinRaw (base : RawText) {path : RawText} (relative : isAbsolute path = false)
    (names : List RawText) :
    (pieces (joinRaw base path)).foldl enter names =
      (pieces path).foldl enter ((pieces base).foldl enter names) := by
  rcases joinRaw_cases relative base with ⟨rfl, joined⟩ | ⟨front, rfl, joined⟩ | ⟨-, joined⟩
  · have empty : pieces "" = [RawText.ofText ""] := rfl
    rw [joined, empty, List.foldl_cons, enter_empty, List.foldl_nil]
  · rw [joined, pieces_append_slash, pieces_concat_slash, List.foldl_append, List.foldl_append]
    simp
  · rw [joined, pieces_append_slash, List.foldl_append]

theorem getLast?_pieces_joinRaw (base : RawText) {path : RawText}
    (relative : isAbsolute path = false) :
    (pieces (joinRaw base path)).getLast? = (pieces path).getLast? := by
  have filled : (pieces path).getLast?.isSome = true := by simpa using pieces_ne_nil path
  rcases joinRaw_cases relative base with ⟨-, joined⟩ | ⟨front, -, joined⟩ | ⟨-, joined⟩
  · rw [joined]
  · rw [joined, pieces_append_slash, List.getLast?_append, Option.or_of_isSome filled]
  · rw [joined, pieces_append_slash, List.getLast?_append, Option.or_of_isSome filled]

theorem getLast?_joinRaw (base : RawText) {path : RawText} (filled : path.bytes ≠ []) :
    (joinRaw base path).bytes.getLast? = path.bytes.getLast? := by
  have last : path.bytes.getLast?.isSome = true := by simpa using filled
  unfold joinRaw
  split
  · rfl
  split
  · rw [List.getLast?_append, Option.or_of_isSome last]
  · rw [List.append_cons, List.getLast?_append, Option.or_of_isSome last]

theorem isAbsolute_append {a : List UInt8} (filled : a ≠ []) (b : List UInt8) :
    isAbsolute ⟨a ++ b⟩ = isAbsolute ⟨a⟩ := by
  rw [isAbsolute, isAbsolute, List.head?_append, Option.or_of_isSome (by simpa using filled)]

theorem isAbsolute_joinRaw (base : RawText) {path : RawText} (relative : isAbsolute path = false) :
    isAbsolute (joinRaw base path) = isAbsolute base := by
  rcases joinRaw_cases relative base with ⟨rfl, joined⟩ | ⟨front, rfl, joined⟩ | ⟨filled, joined⟩
  · rw [joined, relative]
    decide
  · rw [joined, List.append_cons, isAbsolute_append (by simp)]
  · have written : base.bytes ≠ [] := by
      rw [ne_eq, ← List.isEmpty_iff, ← RawText.isEmpty, RawText.isEmpty_iff]
      exact filled
    rw [joined, isAbsolute_append written]

theorem resolve_joinRaw (start : List RawText) (base : RawText) {path : RawText}
    (relative : isAbsolute path = false) :
    resolve start (joinRaw base path) = (pieces path).foldl enter (resolve start base) := by
  unfold resolve
  rw [foldl_enter_joinRaw base relative, isAbsolute_joinRaw base relative]

/-! Staying below a directory -/

/-- Pieces that lead above where they begin, when that is so many names below the place to
stay in. -/
def climbsAbove : Nat → List RawText → Bool
  | _, [] => false
  | depth, piece :: rest =>
    if piece.isEmpty || piece = "." then climbsAbove depth rest
    else if piece = ".." then depth = 0 || climbsAbove (depth - 1) rest
    else climbsAbove (depth + 1) rest

theorem climbsAbove_of_append {depth : Nat} {before after : List RawText}
    (stays : climbsAbove depth (before ++ after) = false) : climbsAbove depth before = false := by
  induction before generalizing depth with
  | nil => rfl
  | cons piece before ih =>
    rw [List.cons_append, climbsAbove] at stays
    rw [climbsAbove]
    split
    · next quiet => exact ih (by rwa [if_pos quiet] at stays)
    next loud =>
    rw [if_neg loud] at stays
    split
    · next parent =>
      rw [if_pos parent, Bool.or_eq_false_iff] at stays
      rw [stays.1, ih stays.2, Bool.or_self]
    · next named => exact ih (by rwa [if_neg named] at stays)

theorem exists_foldl_enter (root below : List RawText) {pieces : List RawText}
    (stays : climbsAbove below.length pieces = false) :
    ∃ below', pieces.foldl enter (root ++ below) = root ++ below' := by
  induction pieces generalizing below with
  | nil => exact ⟨below, rfl⟩
  | cons piece pieces ih =>
    rw [climbsAbove] at stays
    rw [List.foldl_cons, enter]
    split at stays
    · next quiet =>
      rw [if_pos quiet]
      exact ih below stays
    next loud =>
    rw [if_neg loud]
    split at stays
    · next parent =>
      rw [Bool.or_eq_false_iff] at stays
      have filled : below ≠ [] := by
        rintro rfl
        simp at stays
      rw [if_pos parent, List.dropLast_append_of_ne_nil filled]
      exact ih _ (by rw [List.length_dropLast]; exact stays.2)
    · next named =>
      rw [if_neg named, List.append_assoc]
      exact ih _ (by rwa [List.length_append])

example : climbsAbove 0 ["src", "..", "Foo.ts"] = false := by decide

example : climbsAbove 0 ["src", "..", "..", "Foo.ts"] = true := by decide

/-! The order of components -/

section Components

variable {a b c : Component}

theorem componentLt_iff :
    componentLt a b = true ↔
      rank a < rank b ∨ ∃ r s, a = .name r ∧ b = .name s ∧ r.bytes < s.bytes := by
  cases a <;> cases b <;> simp [componentLt, rank]

theorem componentLt_asymm (before : componentLt a b = true) : componentLt b a = false := by
  rw [← Bool.not_eq_true, componentLt_iff]
  rcases componentLt_iff.1 before with lower | ⟨s, t, rfl, rfl, less⟩
  · rintro (higher | ⟨s, t, rfl, rfl, -⟩)
    · omega
    · exact absurd lower (Nat.lt_irrefl _)
  · rintro (higher | ⟨_, _, same, same', more⟩)
    · exact absurd higher (Nat.lt_irrefl _)
    · cases same
      cases same'
      exact List.lt_asymm less more

theorem componentLt_trans (first : componentLt a b = true) (second : componentLt b c = true) :
    componentLt a c = true := by
  rw [componentLt_iff] at first second ⊢
  rcases first with lower | ⟨s, t, rfl, rfl, less⟩
  · rcases second with lower' | ⟨s, t, rfl, rfl, -⟩
    · exact .inl (Nat.lt_trans lower lower')
    · exact .inl lower
  · rcases second with lower | ⟨_, u, same, rfl, less'⟩
    · exact .inl lower
    · cases same
      exact .inr ⟨s, u, rfl, rfl, List.lt_trans less less'⟩

theorem componentLt_or_of_ne (differ : a ≠ b) :
    componentLt a b = true ∨ componentLt b a = true := by
  rw [componentLt_iff, componentLt_iff]
  cases a <;> cases b
  case name.name s t =>
    by_cases less : s.bytes < t.bytes
    · exact .inl (.inr ⟨s, t, rfl, rfl, less⟩)
    · refine .inr (.inr ⟨t, s, rfl, rfl, ?_⟩)
      by_contra more
      obtain ⟨bytes⟩ := s
      obtain ⟨bytes'⟩ := t
      obtain rfl : bytes = bytes' := List.le_antisymm (List.not_lt.1 more) (List.not_lt.1 less)
      exact differ rfl
  all_goals simp_all [rank]

end Components

theorem leComponents_total (as bs : List Component) :
    leComponents as bs = true ∨ leComponents bs as = true := by
  induction as generalizing bs with
  | nil => exact .inl rfl
  | cons a as ih =>
    cases bs with
    | nil => exact .inr rfl
    | cons b bs =>
      by_cases same : a = b
      · subst same
        simpa [leComponents] using ih bs
      · simpa [leComponents, same, Ne.symm same] using componentLt_or_of_ne same

theorem leComponents_antisymm {as bs : List Component} (before : leComponents as bs = true)
    (after : leComponents bs as = true) : as = bs := by
  induction as generalizing bs with
  | nil =>
    cases bs with
    | nil => rfl
    | cons b bs => cases after
  | cons a as ih =>
    cases bs with
    | nil => cases before
    | cons b bs =>
      by_cases same : a = b
      · subst same
        rw [leComponents, if_pos rfl] at before after
        rw [ih before after]
      · rw [leComponents, if_neg same] at before
        rw [leComponents, if_neg (Ne.symm same), componentLt_asymm before] at after
        cases after

theorem leComponents_trans {as bs cs : List Component} (first : leComponents as bs = true)
    (second : leComponents bs cs = true) : leComponents as cs = true := by
  induction as generalizing bs cs with
  | nil => rfl
  | cons a as ih =>
    obtain _ | ⟨b, bs⟩ := bs
    · cases first
    obtain _ | ⟨c, cs⟩ := cs
    · cases second
    rw [leComponents] at first second ⊢
    split at first
    · next same =>
      subst same
      split at second
      · next same' =>
        rw [if_pos same']
        exact ih first second
      · next differ' => rwa [if_neg differ']
    · next differ =>
      split at second
      · next same' =>
        subst same'
        rwa [if_neg differ]
      · next differ' =>
        have before := componentLt_trans first second
        have apart : a ≠ c := by
          rintro rfl
          rw [componentLt_asymm first] at second
          cases second
        rwa [if_neg apart]

/-! The order of paths -/

theorem le_total (a b : RawText) : le a b = true ∨ le b a = true := leComponents_total _ _

theorem le_trans {a b c : RawText} (first : le a b = true) (second : le b c = true) :
    le a c = true := leComponents_trans first second

theorem components_eq_of_le {a b : RawText} (before : le a b = true) (after : le b a = true) :
    components a = components b := leComponents_antisymm before after

theorem pairwise_sort {paths : List RawText} (differ : (paths.map components).Nodup) :
    (paths.mergeSort le).Pairwise (fun a b => le a b = true ∧ le b a = false) := by
  have total (a b : RawText) : (le a b || le b a) = true := Bool.or_eq_true_iff.2 (le_total a b)
  refine (pairwise_mergeSort_of_nodup (fun a b c => @le_trans a b c) total differ).imp ?_
  rintro a b ⟨before, apart⟩
  refine ⟨before, ?_⟩
  rw [← Bool.not_eq_true]
  exact fun after => apart (components_eq_of_le before after)

end Path

end CodeOutline
