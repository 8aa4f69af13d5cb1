import CodeOutline.Proofs.FileSystem.Changes
import CodeOutline.Proofs.FileSystem.Relative
import Mathlib.Data.List.Induction

/-!
When making all directories of a path changes anything. It does when one of them can be made from
the start; the ones that come before it in the order of trying are then refused as missing.
-/

set_option autoImplicit false

namespace CodeOutline

namespace Path

open Text

/-- The paths above one, from its components but for the last, backwards. -/
def above : List Component → List RawText
  | [] => []
  | c :: further => ofComponents (c :: further).reverse :: above further

/-- A path and those above it, in the order in which their directories are tried. -/
def way (path : RawText) : List RawText := path :: above ((components path).reverse.drop 1)

def GoesOn (path other : RawText) : Prop :=
  isAbsolute path = isAbsolute other ∧ telling other <+: (telling path).dropLast

private theorem map_piece (pieces : List RawText) :
    (pieces.map component).map Component.piece = pieces := by
  simp [Function.comp_def, piece_component]

section Spelled

variable {named : List RawText} {front : List Component}

private theorem ofComponents_pieces (pieces : List RawText) :
    ofComponents (pieces.map component) = ofPieces pieces := by
  unfold ofComponents
  split
  · next begins =>
    obtain ⟨piece, -, root⟩ := List.mem_map.1 (begins ▸ List.mem_singleton_self Component.root)
    unfold component at root
    split at root <;> cases root
  · rw [map_piece]

variable (single : ∀ piece ∈ named, pieces piece = [piece])
  (tells : ∀ piece ∈ named, saysNothing piece = false)

include single tells

private theorem telling_ofPieces : telling (ofPieces named) = named := by
  cases named with
  | nil => decide
  | cons piece named =>
    rw [telling, pieces_ofPieces single, List.filter_eq_self]
    simpa using tells

private theorem telling_ofComponents (begins : front = [] ∨ front = [.root] ∨ front = [.here]) :
    telling (ofComponents (front ++ named.map component)) = named ∧
      (isAbsolute (ofComponents (front ++ named.map component)) = true ↔ front = [.root]) := by
  have plain := telling_ofPieces single tells
  obtain rfl | rfl | rfl := begins
  · rw [List.nil_append, ofComponents_pieces, isAbsolute_iff_pieces]
    refine ⟨plain, ?_⟩
    cases named with
    | nil => decide
    | cons piece named =>
      have first : piece ≠ "" := by
        rintro rfl
        exact absurd (tells "" List.mem_cons_self) (by decide)
      simp [pieces_ofPieces single, first]
  · cases named with
    | nil => decide
    | cons piece named =>
      have spelled : ofComponents ([.root] ++ (piece :: named).map component) =
          ⟨[] ++ slash :: (ofPieces (piece :: named)).bytes⟩ := by
        rw [List.singleton_append, ofComponents, List.map_cons, map_piece]
        · exact ofPieces_cons_cons _ _ _
        · simp
      rw [spelled, telling, pieces_append_slash]
      rw [telling] at plain
      refine ⟨?_, iff_of_true rfl rfl⟩
      rw [List.filter_append, plain]
      rfl
  · have spelled : ofComponents ([.here] ++ named.map component) =
        ofPieces (RawText.ofText "." :: named) := by
      rw [List.singleton_append, ofComponents, List.map_cons, map_piece]
      · rfl
      · simp
    have dot : ∀ piece ∈ RawText.ofText "." :: named, pieces piece = [piece] :=
      List.forall_mem_cons.2 ⟨by decide, single⟩
    rw [spelled, telling, isAbsolute_iff_pieces, pieces_ofPieces dot]
    refine ⟨?_, by simp⟩
    rw [List.filter_cons_of_neg (by decide), List.filter_eq_self]
    simpa using tells

private theorem above_pieces (begins : front = [] ∨ front = [.root] ∨ front = [.here]) :
    (above (front ++ named.map component).reverse).Pairwise GoesOn ∧
      ∀ other ∈ above (front ++ named.map component).reverse,
        (isAbsolute other = true ↔ front = [.root]) ∧ telling other <+: named := by
  induction named using List.reverseRecOn with
  | nil =>
    have only := telling_ofComponents single tells begins
    obtain rfl | rfl | rfl := begins
    · exact ⟨.nil, List.forall_mem_nil _⟩
    · refine ⟨List.pairwise_singleton .., List.forall_mem_singleton.2 ⟨only.2, ?_⟩⟩
      exact only.1.symm ▸ List.prefix_rfl
    · refine ⟨List.pairwise_singleton .., List.forall_mem_singleton.2 ⟨only.2, ?_⟩⟩
      exact only.1.symm ▸ List.prefix_rfl
  | append_singleton named piece ih =>
    have here := telling_ofComponents single tells begins
    rw [List.forall_mem_append] at single tells
    obtain ⟨pairwise, each⟩ := ih single.1 tells.1
    have backwards : (front ++ (named ++ [piece]).map component).reverse =
        component piece :: (front ++ named.map component).reverse := by simp
    rw [backwards, above, ← backwards, List.reverse_reverse, List.pairwise_cons,
      List.forall_mem_cons]
    refine ⟨⟨fun other member => ⟨?_, ?_⟩, pairwise⟩, ⟨here.2, ?_⟩, fun other member => ?_⟩
    · rw [Bool.eq_iff_iff, here.2, (each other member).1]
    · rw [here.1, List.dropLast_concat]
      exact (each other member).2
    · exact here.1.symm ▸ List.prefix_rfl
    · exact ⟨(each other member).1, (each other member).2.trans (List.prefix_append ..)⟩

end Spelled

theorem pairwise_way (path : RawText) : (way path).Pairwise GoesOn := by
  obtain ⟨front, begins, rooted, components⟩ := exists_lead path
  have single : ∀ piece ∈ telling path, pieces piece = [piece] := fun piece member =>
    pieces_of_mem (List.mem_filter.1 member).1
  have tells : ∀ piece ∈ telling path, saysNothing piece = false := fun piece member => by
    simpa using (List.mem_filter.1 member).2
  rw [way, components, List.pairwise_cons]
  rcases List.eq_nil_or_concat (telling path) with none_ | ⟨pieces, piece, parts⟩
  · rw [none_]
    obtain rfl | rfl | rfl := begins <;> exact ⟨List.forall_mem_nil _, .nil⟩
  · rw [List.concat_eq_append] at parts
    rw [parts, List.forall_mem_append] at single tells
    obtain ⟨pairwise, each⟩ := above_pieces single.1 tells.1 begins
    have shorter : ((front ++ (telling path).map component).reverse.drop 1) =
        (front ++ pieces.map component).reverse := by simp [parts]
    rw [shorter]
    refine ⟨fun other member => ⟨?_, ?_⟩, pairwise⟩
    · rw [Bool.eq_iff_iff, rooted, (each other member).1]
    · rw [parts, List.dropLast_concat]
      exact (each other member).2

end Path

namespace FileSystem

open CodeOutline.Path

variable {fs fs' : FileSystem} {l : Location} {path other : RawText} {fault : IOFault}

/-! Walks to a directory -/

theorem walk_error {pieces : List RawText} (filled : pieces ≠ []) :
    (fs.at? l = none → fs.walk l pieces = .error .missing) ∧
      ∀ content, fs.at? l = some (.file content) → fs.walk l pieces = .error .notDirectory := by
  obtain ⟨piece, rest, rfl⟩ := List.exists_cons_of_ne_nil filled
  refine ⟨fun absent => ?_, fun content file => ?_⟩
  · rw [walk, absent]
  · rw [walk, file]

private theorem concat_ne_nil (pieces : List RawText) :
    pieces ++ [RawText.ofText ""] ≠ [] := by simp

theorem walk_telling (fs : FileSystem) (l : Location) (pieces : List RawText) :
    fs.walk l (pieces ++ [RawText.ofText ""]) =
      fs.walk l (pieces.filter (fun s => !saysNothing s) ++ [RawText.ofText ""]) := by
  induction pieces generalizing l with
  | nil => rfl
  | cons piece pieces ih =>
    cases quiet : saysNothing piece with
    | true =>
      have silent : (piece.isEmpty || decide (piece = ".")) = true := by
        simpa [saysNothing] using quiet
      rw [List.filter_cons_of_neg (by simp [quiet]), List.cons_append, walk, if_pos silent, ih]
      split
      · next absent => exact ((walk_error (concat_ne_nil _)).1 absent).symm
      · next content file => exact ((walk_error (concat_ne_nil _)).2 content file).symm
      · rfl
    | false =>
      rw [List.filter_cons_of_pos (by simp [quiet]), List.cons_append, List.cons_append, walk, walk,
        ih, ih, ih]

theorem walk_congr (same : ∀ l, fs'.at? l = fs.at? l) (l : Location) (pieces : List RawText) :
    fs'.walk l pieces = fs.walk l pieces := by
  induction pieces generalizing l with
  | nil => rfl
  | cons piece pieces ih => rw [walk, walk, same, ih, ih, ih]

/-! One directory -/

theorem makeDirectory_concat (fs : FileSystem) (filled : path ≠ "") {before : List RawText}
    {last : RawText} (pieces : (endSlashes path).1 = before ++ [last]) :
    fs.makeDirectory path =
      (fs.walk (fs.origin path) (before ++ [RawText.ofText ""])).bind (fun l =>
        if isDots last || (fs.at? (l ++ [last])).isSome then .error .occupied
        else .ok (fs.put (l ++ [last]) .directory)) := by
  unfold makeDirectory
  simp only [bind, Except.bind, pure, Except.pure, throw, throwThe, MonadExceptOf.throw]
  rw [if_neg (by simpa using filled), pieces, if_neg (by simp), placeOf_concat, walk_append]
  cases fs.walk (fs.origin path) before with
  | error fault => rfl
  | ok l =>
    simp only [Except.bind, walk]
    cases fs.at? l with
    | none => rfl
    | some e =>
      cases e with
      | file content => rfl
      | directory => rfl

theorem pieces_cases (path : RawText) :
    ((endSlashes path).1 = [] ∧ telling path = []) ∨
      ∃ before last, (endSlashes path).1 = before ++ [last] ∧
        telling path = before.filter (fun s => !saysNothing s) ++
          [last].filter (fun s => !saysNothing s) := by
  obtain ⟨ends, parts, empty, -⟩ := pieces_eq_endSlashes path
  have silent : ends.filter (fun s => !saysNothing s) = [] := by
    rw [List.filter_eq_nil_iff]
    intro piece member
    simp [saysNothing, empty piece member]
  have tells : telling path = (endSlashes path).1.filter (fun s => !saysNothing s) := by
    rw [telling, parts, List.filter_append, silent, List.append_nil]
  rcases List.eq_nil_or_concat (endSlashes path).1 with none_ | ⟨before, last, pieces⟩
  · exact .inl ⟨none_, by rw [tells, none_]; rfl⟩
  · rw [List.concat_eq_append] at pieces
    exact .inr ⟨before, last, pieces, by rw [tells, pieces, List.filter_append]⟩

theorem exists_of_makeDirectory (made : fs.makeDirectory path = .ok fs') :
    ∃ before name l, telling path = before ++ [name] ∧ isDots name = false ∧
      fs.walk (fs.origin path) (before ++ [RawText.ofText ""]) = .ok l ∧
      fs.at? (l ++ [name]) = none ∧ fs' = fs.put (l ++ [name]) .directory := by
  have filled : path ≠ "" := by
    rintro rfl
    cases made
  rcases pieces_cases path with ⟨none_, -⟩ | ⟨before, name, pieces, tells⟩
  · simp [makeDirectory, filled, none_, bind, Except.bind, throw, throwThe,
      MonadExceptOf.throw] at made
  · rw [makeDirectory_concat fs filled pieces, walk_telling] at made
    cases walked : fs.walk (fs.origin path)
        (before.filter (fun s => !saysNothing s) ++ [RawText.ofText ""]) with
    | error fault => rw [walked] at made; cases made
    | ok l =>
      rw [walked] at made
      simp only [Except.bind] at made
      split at made
      · cases made
      next free =>
      rw [Bool.or_eq_true, not_or, Bool.not_eq_true, Option.not_isSome_iff_eq_none] at free
      have loud : saysNothing name = false := by
        have dots := free.1
        simp only [isDots, Bool.or_eq_false_iff, decide_eq_false_iff_not] at dots
        simp [saysNothing, dots]
      refine ⟨_, name, l, ?_, free.1, walked, free.2, (Except.ok.inj made).symm⟩
      rw [tells, List.filter_cons_of_pos (by simp [loud]), List.filter_nil]

theorem exists_at?_ne_of_makeDirectory (made : fs.makeDirectory path = .ok fs') :
    ∃ l, fs.at? l = none ∧ fs'.at? l = some .directory := by
  obtain ⟨before, name, l, -, -, -, absent, rfl⟩ := exists_of_makeDirectory made
  exact ⟨l ++ [name], absent, at?_put_self fs _ (ne_nil_of_at? absent)⟩

theorem makeDirectory_of_goesOn (goesOn : GoesOn path other)
    (made : fs.makeDirectory other = .ok fs') : fs.makeDirectory path = .error .missing := by
  obtain ⟨front, name, l, tells, named, walked, absent, -⟩ := exists_of_makeDirectory made
  obtain ⟨rooted, begins⟩ := goesOn
  by_cases filled : path = ""
  · subst filled
    rfl
  rcases pieces_cases path with ⟨-, silent⟩ | ⟨before, last, pieces, parts⟩
  · rw [tells, silent] at begins
    simp at begins
  have inside : front ++ [name] <+: before.filter (fun s => !saysNothing s) := by
    rw [← tells]
    refine begins.trans ?_
    rw [parts]
    -- the last piece is left out, or it says nothing
    cases quiet : saysNothing last with
    | true => simpa [quiet] using List.dropLast_prefix _
    | false => simp [quiet]
  obtain ⟨more, whole⟩ := inside
  obtain ⟨place, led, directory, rfl⟩ := exists_walk_concat walked
  have origin : fs.origin path = fs.origin other := by rw [origin, origin, rooted]
  have blocked : fs.walk (fs.origin path) (before ++ [RawText.ofText ""]) = .error .missing := by
    simp only [isDots, Bool.or_eq_false_iff, decide_eq_false_iff_not] at named
    rw [walk_telling, ← whole, List.append_assoc, List.append_assoc, origin, walk_append, led]
    simp only [Except.bind, List.singleton_append, walk, directory]
    simpa [named] using (walk_error (concat_ne_nil more)).1 absent
  rw [makeDirectory_concat fs filled pieces, blocked]
  rfl

theorem makeDirectory_error_congr (same : ∀ l, fs'.at? l = fs.at? l)
    (current : fs'.current = fs.current) (refused : fs.makeDirectory path = .error fault) :
    fs'.makeDirectory path = .error fault := by
  by_cases filled : path = ""
  · subst filled
    exact refused
  rcases pieces_cases path with ⟨none_, -⟩ | ⟨before, last, pieces, -⟩
  · rw [← refused]
    simp [makeDirectory, filled, none_, bind, Except.bind, throw, throwThe, MonadExceptOf.throw]
  · have origin : fs'.origin path = fs.origin path := by rw [origin, origin, current]
    rw [makeDirectory_concat _ filled pieces] at refused ⊢
    rw [origin, walk_congr same]
    cases walked : fs.walk (fs.origin path) (before ++ [RawText.ofText ""]) with
    | error other => rwa [walked] at refused
    | ok l =>
      rw [walked] at refused
      simp only [Except.bind, same] at refused ⊢
      split at refused
      · next taken => rwa [if_pos taken]
      · cases refused

/-! All directories of a path -/

private theorem ensure_of_made (made : fs.makeDirectory path = .ok fs')
    (components : List Component) : (fs.ensure path components).1 = fs' := by
  cases components <;> rw [ensure, made]

private theorem ensure_of_refused (refused : fs.makeDirectory path = .error fault)
    (other : fault ≠ .missing) (components : List Component) :
    (fs.ensure path components).1 = fs := by
  cases components <;> rw [ensure, refused] <;> cases fault <;> first | rfl | exact absurd rfl other

private theorem ensure_of_missing (missing : fs.makeDirectory path = .error .missing)
    (component : Component) (further : List Component) :
    (∀ l, (fs.ensure path (component :: further)).1.at? l = fs.at? l) ↔
      ∀ l, (fs.ensure (ofComponents (component :: further).reverse) further).1.at? l =
        fs.at? l := by
  have adds := fs.ensure_adds (ofComponents (component :: further).reverse) further
  rw [ensure, missing]
  dsimp only
  split
  · next begun => rw [begun]
  · next begun first =>
    rw [first] at adds ⊢
    split
    · next made last =>
      refine ⟨fun same l => ?_, fun same => ?_⟩
      · -- what the directories above added is still there
        cases there : begun.at? l with
        | none =>
          cases before : fs.at? l with
          | none => rfl
          | some e => exact absurd (adds.kept l e before) (by simp [there])
        | some e => rw [← same l, (makeDirectory_adds last).kept l e there]
      · have still := makeDirectory_error_congr same adds.current missing
        rw [still] at last
        cases last
    · rfl

private theorem ensure_at?_iff {path : RawText} {components : List Component}
    (ordered : (path :: above components).Pairwise GoesOn) :
    (∀ l, (fs.ensure path components).1.at? l = fs.at? l) ↔
      ∀ q ∈ path :: above components, ∀ made, fs.makeDirectory q ≠ .ok made := by
  rw [List.forall_mem_cons]
  cases tried : fs.makeDirectory path with
  | ok made =>
    obtain ⟨l, absent, there⟩ := exists_at?_ne_of_makeDirectory tried
    rw [ensure_of_made tried]
    refine ⟨fun same => ?_, fun none_ => absurd rfl (none_.1 made)⟩
    rw [same l, absent] at there
    cases there
  | error fault =>
    have here (made : FileSystem) : (.error fault : Except IOFault FileSystem) ≠ .ok made := by
      intro same
      cases same
    obtain ⟨later, rest⟩ := List.pairwise_cons.1 ordered
    by_cases missing : fault = .missing
    · subst missing
      cases components with
      | nil =>
        rw [ensure, tried]
        exact ⟨fun _ => ⟨here, List.forall_mem_nil _⟩, fun _ _ => rfl⟩
      | cons component further =>
        rw [above] at rest ⊢
        rw [ensure_of_missing tried, ensure_at?_iff rest]
        exact ⟨fun none_ => ⟨here, none_⟩, And.right⟩
    · rw [ensure_of_refused tried missing]
      refine ⟨fun _ => ⟨here, fun q member made later_made => ?_⟩, fun _ _ => rfl⟩
      rw [makeDirectory_of_goesOn (later q member) later_made] at tried
      exact missing (Except.error.inj tried).symm

/-- Making all directories of a path leaves everything as it was, unless one of them can be made
as things are. -/
theorem makeDirectories_at?_iff (fs : FileSystem) (path : RawText) :
    (∀ l, (fs.makeDirectories path).1.at? l = fs.at? l) ↔
      ∀ q ∈ way path, ∀ made, fs.makeDirectory q ≠ .ok made := by
  rw [makeDirectories]
  split
  · next empty =>
    obtain rfl := RawText.isEmpty_iff.1 empty
    refine ⟨fun _ => List.forall_mem_singleton.2 fun made same => ?_, fun _ _ => rfl⟩
    cases same
  · exact ensure_at?_iff (pairwise_way path)

end FileSystem

end CodeOutline
