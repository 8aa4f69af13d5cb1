import CodeOutline.FileSystem.Basic
import CodeOutline.Proofs.FileSystem.Paths

/-!
What each change of a file system leaves as it was. Making directories adds directories and
nothing else; a new file comes to be where nothing was before; a text is saved in one place.
-/

set_option autoImplicit false

namespace CodeOutline.FileSystem

variable {fs fs' fs'' : FileSystem} {l l' : Location} {e : Entry} {path : RawText}

/-! Entries -/

@[simp]
theorem at?_root (fs : FileSystem) : fs.at? [] = some .directory := rfl

theorem at?_of_ne_nil (fs : FileSystem) (below : l ≠ []) :
    fs.at? l = fs.entries.lookup l := by
  simp [at?, below]

private theorem lookup_filter_self (entries : List (Location × Entry)) (l : Location) :
    (entries.filter (·.1 != l)).lookup l = none := by
  simpa [List.lookup_eq_none_iff] using fun other _ _ differs same => differs same.symm

private theorem lookup_filter_of_ne (entries : List (Location × Entry)) (other : l' ≠ l) :
    (entries.filter (·.1 != l)).lookup l' = entries.lookup l' := by
  induction entries with
  | nil => rfl
  | cons entry entries ih =>
    by_cases here : entry.1 = l
    · rw [List.filter_cons_of_neg (by simp [here]), ih, List.lookup_cons,
        beq_false_of_ne (here ▸ other)]
    · rw [List.filter_cons_of_pos (by simp [here]), List.lookup_cons, List.lookup_cons, ih]

theorem at?_put_self (fs : FileSystem) (e : Entry) (below : l ≠ []) :
    (fs.put l e).at? l = some e := by
  simp [at?_of_ne_nil _ below, put, List.lookup_append, lookup_filter_self]

theorem at?_put_of_ne (fs : FileSystem) (e : Entry) (other : l' ≠ l) :
    (fs.put l e).at? l' = fs.at? l' := by
  by_cases root : l' = []
  · simp [root]
  · simp [at?_of_ne_nil _ root, put, List.lookup_append, lookup_filter_of_ne _ other,
      List.lookup_cons, beq_false_of_ne other]

theorem at?_remove_self (fs : FileSystem) (below : l ≠ []) :
    (fs.remove l).at? l = none := by
  rw [at?_of_ne_nil _ below, remove, lookup_filter_self]

theorem at?_remove_of_ne (fs : FileSystem) (other : l' ≠ l) :
    (fs.remove l).at? l' = fs.at? l' := by
  by_cases root : l' = []
  · simp [root]
  · rw [at?_of_ne_nil _ root, at?_of_ne_nil _ root, remove, lookup_filter_of_ne _ other]

theorem ne_nil_of_at? (absent : fs.at? l = none) : l ≠ [] := by
  rintro rfl
  cases absent

/-! Walks -/

theorem walk_append (fs : FileSystem) (l : Location) (before after : List RawText) :
    fs.walk l (before ++ after) = (fs.walk l before).bind (fs.walk · after) := by
  induction before generalizing l with
  | nil => rfl
  | cons piece before ih =>
    rw [List.cons_append, walk, walk]
    split
    · rfl
    · rfl
    · rw [ih, ih, ih]
      split
      · rfl
      · split <;> rfl

theorem eq_foldl_enter_of_walk {pieces : List RawText} (walked : fs.walk l pieces = .ok l') :
    l' = pieces.foldl Path.enter l := by
  induction pieces generalizing l with
  | nil => exact (Except.ok.inj walked).symm
  | cons piece pieces ih =>
    rw [walk] at walked
    rw [List.foldl_cons, Path.enter]
    split at walked
    · cases walked
    · cases walked
    · split at walked
      · next quiet => rw [if_pos quiet]; exact ih walked
      next loud =>
      rw [if_neg loud]
      split at walked
      · next parent => rw [if_pos parent]; exact ih walked
      · next named => rw [if_neg named]; exact ih walked

theorem walk_of_kept (kept : ∀ l, fs.at? l = some .directory → fs'.at? l = some .directory)
    {pieces : List RawText} (walked : fs.walk l pieces = .ok l') : fs'.walk l pieces = .ok l' := by
  induction pieces generalizing l with
  | nil => exact walked
  | cons piece pieces ih =>
    rw [walk] at walked ⊢
    split at walked
    · cases walked
    · cases walked
    · next there =>
      rw [kept l there]
      split at walked
      · next quiet => simpa [quiet] using ih walked
      next loud =>
      split at walked
      · next parent => simpa [loud, parent] using ih walked
      · next named => simpa [loud, named] using ih walked

theorem locate_eq (fs : FileSystem) (filled : path ≠ "") :
    fs.locate path = fs.walk (fs.origin path) (Path.pieces path) := by
  simp [locate, filled]

theorem eq_resolve_of_locate (located : fs.locate path = .ok l) :
    l = Path.resolve fs.current path := by
  unfold locate at located
  split at located
  · cases located
  · exact eq_foldl_enter_of_walk located

/-! Directories -/

structure AddsDirectories (fs fs' : FileSystem) : Prop where
  kept : ∀ l e, fs.at? l = some e → fs'.at? l = some e
  added : ∀ l e, fs'.at? l = some e → fs.at? l = some e ∨ e = .directory
  current : fs'.current = fs.current
  room : fs'.room = fs.room

namespace AddsDirectories

theorem refl (fs : FileSystem) : AddsDirectories fs fs where
  kept _ _ there := there
  added _ _ there := .inl there
  current := rfl
  room := rfl

theorem trans (first : AddsDirectories fs fs') (second : AddsDirectories fs' fs'') :
    AddsDirectories fs fs'' where
  kept l e there := second.kept l e (first.kept l e there)
  added l e there := (second.added l e there).elim (first.added l e) .inr
  current := second.current.trans first.current
  room := second.room.trans first.room

theorem put (absent : fs.at? l = none) : AddsDirectories fs (fs.put l .directory) where
  kept l' e there := by
    have other : l' ≠ l := by
      rintro rfl
      rw [absent] at there
      cases there
    rw [at?_put_of_ne fs _ other, there]
  added l' e there := by
    by_cases here : l' = l
    · rw [here, at?_put_self fs _ (ne_nil_of_at? absent)] at there
      exact .inr (Option.some.inj there).symm
    · exact .inl (by rwa [at?_put_of_ne fs _ here] at there)
  current := rfl
  room := rfl

theorem file_iff (adds : AddsDirectories fs fs') (l : Location) (c : Content) :
    fs'.at? l = some (.file c) ↔ fs.at? l = some (.file c) := by
  constructor
  · intro there
    exact (adds.added l _ there).resolve_right (by simp)
  · exact adds.kept l _

end AddsDirectories

theorem makeDirectory_adds (made : fs.makeDirectory path = .ok fs') : AddsDirectories fs fs' := by
  unfold makeDirectory at made
  simp only [bind, Except.bind, pure, Except.pure, throw, throwThe, MonadExceptOf.throw] at made
  split at made
  · cases made
  split at made
  · cases made
  split at made
  · cases made
  next place placed =>
  split at made
  · cases made
  · next free =>
    have absent : fs.at? (place.1 ++ [place.2]) = none := by
      rw [Bool.or_eq_true, not_or, Option.not_isSome_iff_eq_none] at free
      exact free.2
    obtain rfl := Except.ok.inj made
    exact .put absent

theorem ensure_adds (fs : FileSystem) (path : RawText) (above : List Path.Component) :
    AddsDirectories fs (fs.ensure path above).1 := by
  induction above generalizing fs path with
  | nil =>
    rw [ensure]
    split
    · next made => exact makeDirectory_adds made
    · exact .refl fs
    · exact .refl fs
  | cons component further ih =>
    rw [ensure]
    split
    · next made => exact makeDirectory_adds made
    · split
      · next begun =>
        have adds := ih fs (Path.ofComponents (component :: further).reverse)
        rwa [begun] at adds
      · next begun =>
        have adds := ih fs (Path.ofComponents (component :: further).reverse)
        rw [begun] at adds
        split
        · next made => exact adds.trans (makeDirectory_adds made)
        · exact adds
    · exact .refl fs

theorem makeDirectories_adds (fs : FileSystem) (path : RawText) :
    AddsDirectories fs (fs.makeDirectories path).1 := by
  rw [makeDirectories]
  split
  · exact .refl fs
  · exact ensure_adds fs path _

/-! New files -/

/-- The pieces of a path are those without the slashes at its end and then empty ones, none
when it does not end in a slash. -/
theorem pieces_eq_endSlashes (path : RawText) :
    ∃ ends, Path.pieces path = (endSlashes path).1 ++ ends ∧
      (∀ piece ∈ ends, piece.isEmpty = true) ∧ ((endSlashes path).2 = false → ends = []) := by
  refine ⟨((Path.pieces path).reverse.takeWhile RawText.isEmpty).reverse, ?_, ?_, ?_⟩
  · rw [endSlashes, ← List.reverse_append, List.takeWhile_append_dropWhile, List.reverse_reverse]
  · intro piece member
    exact List.all_eq_true.1 List.all_takeWhile piece (List.mem_reverse.1 member)
  · intro noSlash
    rw [endSlashes, List.getLast?_eq_head?_reverse, beq_eq_false_iff_ne] at noSlash
    rw [List.reverse_eq_nil_iff]
    cases backwards : (Path.pieces path).reverse with
    | nil => rfl
    | cons piece rest =>
      have filled : piece.isEmpty = false := by simpa [backwards] using noSlash
      rw [List.takeWhile_cons, filled]
      rfl

theorem placeOf_concat (fs : FileSystem) (path : RawText) (before : List RawText) (last : RawText) :
    fs.placeOf path (before ++ [last]) =
      (fs.walk (fs.origin path) before).bind (fun l =>
        match fs.at? l with
        | none => .error .missing
        | some (.file _) => .error .notDirectory
        | some .directory => .ok (l, last)) := by
  simp [placeOf]
  rfl

theorem exists_of_placeOf {pieces : List RawText} {last : RawText}
    (placed : fs.placeOf path pieces = .ok (l, last)) :
    ∃ before, pieces = before ++ [last] ∧ fs.walk (fs.origin path) before = .ok l ∧
      fs.at? l = some .directory := by
  rcases List.eq_nil_or_concat pieces with rfl | ⟨before, last', rfl⟩
  · cases placed
  rw [List.concat_eq_append] at placed ⊢
  rw [placeOf_concat] at placed
  cases walked : fs.walk (fs.origin path) before with
  | error fault => rw [walked] at placed; cases placed
  | ok l' =>
    rw [walked] at placed
    simp only [Except.bind] at placed
    split at placed
    · cases placed
    · cases placed
    · next there =>
      obtain ⟨rfl, rfl⟩ := Prod.mk.inj (Except.ok.inj placed)
      exact ⟨before, rfl, walked, there⟩

theorem exists_of_create (made : fs.create path = .ok fs') :
    ∃ before name l, Path.pieces path = before ++ [name] ∧ isDots name = false ∧
      fs.walk (fs.origin path) before = .ok l ∧ fs.at? l = some .directory ∧
      fs.at? (l ++ [name]) = none ∧ fs' = fs.put (l ++ [name]) (.file (.text "")) := by
  unfold create at made
  simp only [bind, Except.bind, pure, Except.pure, throw, throwThe, MonadExceptOf.throw] at made
  split at made
  · cases made
  next filled =>
  split at made
  · cases made
  split at made
  · cases made
  next place placed =>
  split at made
  · cases made
  next named =>
  split at made
  · cases made
  next noSlash =>
  split at made
  · cases made
  next free =>
  obtain ⟨before, parts, walked, there⟩ := exists_of_placeOf placed
  obtain ⟨ends, pieces, -, noEnds⟩ := pieces_eq_endSlashes path
  rw [noEnds (by simpa using noSlash), List.append_nil, parts] at pieces
  exact ⟨before, place.2, place.1, pieces, by simpa using named, walked, there,
    by simpa using free, (Except.ok.inj made).symm⟩

private theorem exists_of_isThere (there : fs.isThere path = true) :
    path ≠ "" ∧ ∃ l e, fs.walk (fs.origin path) (Path.pieces path) = .ok l ∧
      fs.at? l = some e := by
  have filled : path ≠ "" := by
    rintro rfl
    cases there
  refine ⟨filled, ?_⟩
  rw [isThere, look, locate_eq fs filled] at there
  cases walked : fs.walk (fs.origin path) (Path.pieces path) with
  | error fault => rw [walked] at there; cases there
  | ok l =>
    cases found : fs.at? l with
    | none => simp [walked, found, bind, Except.bind, Except.isOk, Except.toBool] at there
    | some e => exact ⟨l, e, rfl, found⟩

private theorem foldl_enter_of_empty {ends : List RawText}
    (empty : ∀ piece ∈ ends, piece.isEmpty = true) (l : Location) :
    ends.foldl Path.enter l = l := by
  induction ends with
  | nil => rfl
  | cons piece ends ih =>
    rw [List.forall_mem_cons] at empty
    rw [List.foldl_cons, Path.enter, if_pos (by simp [empty.1]), ih empty.2]

theorem exists_walk_concat {before : List RawText} {last : RawText}
    (walked : fs.walk l (before ++ [last]) = .ok l') :
    ∃ place, fs.walk l before = .ok place ∧ fs.at? place = some .directory ∧
      l' = Path.enter place last := by
  rw [walk_append] at walked
  cases front : fs.walk l before with
  | error fault => rw [front] at walked; cases walked
  | ok place =>
    rw [front] at walked
    refine ⟨place, rfl, ?_, eq_foldl_enter_of_walk walked⟩
    simp only [Except.bind, walk] at walked
    split at walked
    · cases walked
    · cases walked
    · assumption

private theorem getLast?_of_endSlashes (filled : path ≠ "") (slashes : (endSlashes path).2 = true) :
    path.bytes.getLast? = some Path.slash := by
  rcases List.eq_nil_or_concat path.bytes with empty | ⟨front, byte, whole⟩
  · exact absurd (congrArg RawText.mk empty) filled
  rw [List.concat_eq_append] at whole
  have last : (Text.splitChars (· == Path.slash) path.bytes).getLast? = some [] := by
    have ends := beq_iff_eq.1 slashes
    rw [Path.pieces, List.getLast?_map] at ends
    obtain ⟨piece, last, same⟩ := Option.map_eq_some_iff.1 ends
    rw [last, show piece = [] from congrArg RawText.bytes same]
  rw [whole, List.getLast?_concat, Option.some.injEq]
  by_contra other
  exact absurd (whole ▸ last) (Text.getLast?_splitChars_concat front (by simpa using other))

private theorem walk_endSlashes
    (walked : fs.walk (fs.origin path) (Path.pieces path) = .ok l) :
    fs.walk (fs.origin path) (endSlashes path).1 = .ok l := by
  obtain ⟨ends, parts, empty, -⟩ := pieces_eq_endSlashes path
  rw [parts, walk_append] at walked
  cases front : fs.walk (fs.origin path) (endSlashes path).1 with
  | error fault => rw [front] at walked; cases walked
  | ok l' =>
    rw [front] at walked
    rw [eq_foldl_enter_of_walk walked, foldl_enter_of_empty empty]

/-- Nothing is made where something is, whether a file or a directory. A path that ends in a
slash is refused for that alone. -/
theorem create_of_isThere (there : fs.isThere path = true) :
    fs.create path = .error .occupied ∨
      (path.bytes.getLast? = some Path.slash ∧ fs.create path = .error .isDirectory) := by
  obtain ⟨filled, l, e, walked, found⟩ := exists_of_isThere there
  unfold create
  simp only [bind, Except.bind, pure, Except.pure, throw, throwThe, MonadExceptOf.throw]
  rw [if_neg (by simpa using filled)]
  have front := walk_endSlashes walked
  rcases List.eq_nil_or_concat (endSlashes path).1 with none_ | ⟨before, last, parts⟩
  · exact .inl (by rw [none_]; rfl)
  rw [List.concat_eq_append] at parts
  rw [parts] at front ⊢
  obtain ⟨place, led, directory, rfl⟩ := exists_walk_concat front
  rw [if_neg (by simp), placeOf_concat, led]
  simp only [Except.bind, directory]
  cases dots : isDots last with
  | true => exact .inl rfl
  | false =>
    cases slashes : (endSlashes path).2 with
    | true => exact .inr ⟨getLast?_of_endSlashes filled slashes, rfl⟩
    | false =>
      simp only [isDots, Bool.or_eq_false_iff, decide_eq_false_iff_not] at dots
      rw [Path.enter_name place dots.1.1 dots.1.2 dots.2] at found
      simp [found]

structure AddsFile (fs fs' : FileSystem) (l : Location) (c : Content) : Prop where
  absent : fs.at? l = none
  entry : fs'.at? l = some (.file c)
  rest : ∀ l', l' ≠ l → fs'.at? l' = fs.at? l'

namespace AddsFile

variable {c : Content}

theorem put (absent : fs.at? l = none) (c : Content) :
    AddsFile fs (fs.put l (.file c)) l c where
  absent := absent
  entry := at?_put_self fs _ (ne_nil_of_at? absent)
  rest _ other := at?_put_of_ne fs _ other

theorem overwrite (adds : AddsFile fs fs' l c) (d : Content) :
    AddsFile fs (fs'.put l (.file d)) l d where
  absent := adds.absent
  entry := at?_put_self fs' _ (ne_nil_of_at? adds.absent)
  rest l' other := by rw [at?_put_of_ne fs' _ other, adds.rest l' other]

theorem at?_remove (adds : AddsFile fs fs' l c) (l' : Location) :
    (fs'.remove l).at? l' = fs.at? l' := by
  by_cases here : l' = l
  · rw [here, at?_remove_self fs' (ne_nil_of_at? adds.absent), adds.absent]
  · rw [at?_remove_of_ne fs' here, adds.rest l' here]

theorem directory_kept (adds : AddsFile fs fs' l c) (l' : Location)
    (there : fs.at? l' = some .directory) : fs'.at? l' = some .directory := by
  have other : l' ≠ l := by
    rintro rfl
    rw [adds.absent] at there
    cases there
  rw [adds.rest l' other, there]

theorem file_iff (adds : AddsFile fs fs' l c) (l' : Location) (d : Content) :
    fs'.at? l' = some (.file d) ↔ fs.at? l' = some (.file d) ∨ (l' = l ∧ d = c) := by
  by_cases here : l' = l
  · rw [here, adds.entry, adds.absent]
    simp [eq_comm]
  · rw [adds.rest l' here]
    simp [here]

end AddsFile

theorem create_adds (made : fs.create path = .ok fs') :
    ∃ before name l, Path.pieces path = before ++ [name] ∧ isDots name = false ∧
      AddsFile fs fs' l (.text "") ∧ fs'.locate path = .ok l ∧ fs'.current = fs.current := by
  have filled : path ≠ "" := by
    rintro rfl
    cases made
  obtain ⟨before, name, place, parts, named, walked, there, absent, rfl⟩ := exists_of_create made
  have adds := AddsFile.put absent (.text "")
  refine ⟨before, name, place ++ [name], parts, named, adds, ?_, rfl⟩
  have led := walk_of_kept adds.directory_kept walked
  have origin : (fs.put (place ++ [name]) (.file (.text ""))).origin path = fs.origin path := rfl
  rw [locate_eq _ filled, parts, walk_append, origin, led]
  simp only [isDots, Bool.or_eq_false_iff, decide_eq_false_iff_not] at named
  simp [Except.bind, walk, adds.directory_kept place there, named]

/-! A text saved as a file: one entry changes, the one that the path leads to, and it is a file
afterwards, with the whole text or with as much of it as there is room for -/

section Saving

variable {text : String} {content : Content}

structure SetsFile (fs fs' : FileSystem) (l : Location) (c : Content) : Prop where
  free : fs.at? l ≠ some .directory
  entry : fs'.at? l = some (.file c)
  rest : ∀ l', l' ≠ l → fs'.at? l' = fs.at? l'

namespace SetsFile

theorem put (free : fs.at? l ≠ some .directory) (c : Content) :
    SetsFile fs (fs.put l (.file c)) l c where
  free := free
  entry := at?_put_self fs _ (fun root => free (by rw [root, at?_root]))
  rest _ other := at?_put_of_ne fs _ other

variable {c : Content} (sets : SetsFile fs fs' l c)

include sets

theorem overwrite (d : Content) : SetsFile fs (fs'.put l (.file d)) l d where
  free := sets.free
  entry := at?_put_self fs' _ (fun root => sets.free (by rw [root, at?_root]))
  rest l' other := by rw [at?_put_of_ne fs' _ other, sets.rest l' other]

theorem directory_kept (l' : Location) (there : fs.at? l' = some .directory) :
    fs'.at? l' = some .directory := by
  have other : l' ≠ l := by
    rintro rfl
    exact sets.free there
  rw [sets.rest l' other, there]

end SetsFile

theorem write_sets (written : fs.write path content = .ok fs') :
    ∃ l, SetsFile fs fs' l content ∧ fs'.locate path = .ok l ∧ fs'.current = fs.current ∧
      fs'.room = fs.room := by
  unfold write at written
  simp only [bind, Except.bind, throw, throwThe, MonadExceptOf.throw] at written
  split at written
  · cases written
  next place placed =>
  obtain ⟨before, parts, walked, there⟩ := exists_of_placeOf placed
  obtain ⟨ends, pieces, -, noEnds⟩ := pieces_eq_endSlashes path
  split at written
  · cases written
  next named =>
  rw [Bool.or_eq_true, not_or, Bool.not_eq_true, Bool.not_eq_true] at named
  rw [noEnds named.2, List.append_nil, parts] at pieces
  have filled : path ≠ "" := by
    rintro rfl
    have empty : (endSlashes "").1 = [] := by decide
    rw [empty] at parts
    exact List.cons_ne_nil _ _ (List.append_eq_nil_iff.1 parts.symm).2
  split at written
  · cases written
  next free =>
  obtain rfl := Except.ok.inj written
  have sets : SetsFile fs (fs.put (place.1 ++ [place.2]) (.file content))
    (place.1 ++ [place.2]) content := .put free content
  refine ⟨place.1 ++ [place.2], sets, ?_, rfl, rfl⟩
  have led := walk_of_kept sets.directory_kept walked
  have origin : (fs.put (place.1 ++ [place.2]) (.file content)).origin path = fs.origin path := rfl
  rw [locate_eq _ filled, pieces, walk_append, origin, led]
  have name := named.1
  simp only [isDots, Bool.or_eq_false_iff, decide_eq_false_iff_not] at name
  simp [Except.bind, walk, sets.directory_kept place.1 there, name]

/-- Saving fails and changes nothing, or the file that the path leads to holds the text, or as
much of it as there is room for. -/
theorem save_cases (fs : FileSystem) (path : RawText) (text : String) :
    (∃ fault, fs.save path text = (fs, .error fault)) ∨
      ∃ l c, l = Path.resolve fs.current path ∧ SetsFile fs (fs.save path text).1 l c ∧
        (((fs.save path text).2 = .ok () ∧ c = .text text) ∨
          ((fs.save path text).2 = .error .full ∧ ∃ n, fs.room = some n ∧ n < text.utf8ByteSize ∧
            c = .bytes (text.toUTF8.toList.take n))) := by
  unfold save
  split
  · exact .inl ⟨_, rfl⟩
  next emptied written =>
  obtain ⟨l, sets, located, current, room⟩ := write_sets written
  right
  have target : l = Path.resolve fs.current path := current ▸ eq_resolve_of_locate located
  have whole : emptied.fill path text = (emptied.put l (.file (.text text)), .ok ()) ∨
      ∃ n, emptied.room = some n ∧ n < text.utf8ByteSize ∧ emptied.fill path text =
        (emptied.put l (.file (.bytes (text.toUTF8.toList.take n))), .error .full) := by
    unfold fill
    rw [located]
    cases limit : emptied.room with
    | none => exact .inl rfl
    | some n =>
      by_cases fits : text.utf8ByteSize ≤ n
      · exact .inl (if_pos fits)
      · exact .inr ⟨n, rfl, Nat.lt_of_not_le fits, if_neg fits⟩
  rcases whole with filled | ⟨n, limit, short, filled⟩
  · rw [filled]
    exact ⟨l, .text text, target, sets.overwrite _, .inl ⟨rfl, rfl⟩⟩
  · rw [filled]
    exact ⟨l, _, target, sets.overwrite _, .inr ⟨rfl, n, room ▸ limit, short, rfl⟩⟩

end Saving

end CodeOutline.FileSystem
