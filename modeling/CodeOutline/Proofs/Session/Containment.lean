import CodeOutline.Proofs.FileSystem.Making
import CodeOutline.Proofs.Session.Generation

/-!
Where new files come to be. The directory that is answered begins at the workspace, and only two
dots or a file name that begins with a slash lead out of it. When a request fails, a file that was
begun is taken away again, but directories that were made for it stay.
-/

set_option autoImplicit false

namespace CodeOutline

/-- The answered directory as it is seen from the workspace. -/
def Choices.inside (c : Choices) : String := Text.dropLeft Session.isSlash (Text.trim c.directory)

/-- The pieces of the path behind the workspace. -/
def Choices.steps (c : Choices) (mode : Scaffold.Mode) : List RawText :=
  Path.pieces c.inside ++ Path.pieces (c.fileName mode)

namespace Session

variable {s : Session} {mode : Scaffold.Mode} {c : Choices}

private theorem of_head?_dropWhile {stop : Char → Bool} {cs : List Char} {first : Char}
    (head : (cs.dropWhile stop).head? = some first) : stop first = false := by
  have stopped := List.head?_dropWhile_not stop cs
  rwa [head] at stopped

theorem isAbsolute_inside (c : Choices) : Path.isAbsolute c.inside = false := by
  rw [Bool.eq_false_iff, ne_eq, Path.isAbsolute_ofText, Choices.inside, Text.dropLeft,
    String.toList_ofList]
  intro slash
  cases of_head?_dropWhile slash

theorem resolve_path (relative : Path.isAbsolute (c.fileName mode) = false)
    (start : List RawText) :
    Path.resolve start (c.path mode) =
      (c.steps mode).foldl Path.enter (Path.resolve start c.workspace) := by
  have place : c.place = Path.join c.workspace c.inside := rfl
  rw [Choices.path, Path.ofText_join, Path.resolve_joinRaw start _ relative, place,
    Path.ofText_join, Path.resolve_joinRaw start _ (isAbsolute_inside c), Choices.steps,
    List.foldl_append]

theorem exists_below {name : RawText} (relative : Path.isAbsolute (c.fileName mode) = false)
    (stays : Path.climbsAbove 0 (c.steps mode) = false)
    (last : (Path.pieces (c.path mode)).getLast? = some name)
    (named : FileSystem.isDots name = false) (start : List RawText) :
    ∃ below, below ≠ [] ∧
      Path.resolve start (c.path mode) = Path.resolve start c.workspace ++ below := by
  have final : (c.steps mode).getLast? = some name := by
    rw [Choices.path, Path.ofText_join, Path.getLast?_pieces_joinRaw _ relative] at last
    rw [Choices.steps, List.getLast?_append, last, Option.some_or]
  obtain ⟨front, steps⟩ := List.getLast?_eq_some_iff.1 final
  rw [resolve_path relative, steps, List.foldl_append]
  rw [steps] at stays
  obtain ⟨below, led⟩ := Path.exists_foldl_enter (Path.resolve start c.workspace) []
    (Path.climbsAbove_of_append stays)
  rw [List.append_nil] at led
  simp only [FileSystem.isDots, Bool.or_eq_false_iff, decide_eq_false_iff_not] at named
  rw [led, List.foldl_cons, List.foldl_nil, Path.enter_name _ named.1.1 named.1.2 named.2,
    List.append_assoc]
  exact ⟨below ++ [name], by simp, rfl⟩

/-- A new file lies where its path resolves to, and that is inside the workspace as long as the
file name does not begin with a slash and the two dots in the answered directory and the file
name take away no more than came before them. -/
theorem generate_stays_inside (s : Session) (fs : FileSystem) (mode : Scaffold.Mode)
    (selection : Option String) (p : Prompter) (path : String)
    (made : (s.generate fs mode selection p).result = .ok (some path)) :
    ∃ c replies, s.Makes mode selection p.isInteractive replies c ∧ p.Gives [] replies ∧
      path = c.path mode ∧
      (s.generate fs mode selection p).files.at? (Path.resolve fs.current path) =
        some (.file (.text (c.text s mode))) ∧
      fs.at? (Path.resolve fs.current path) = none ∧
      (Path.isAbsolute (c.fileName mode) = false → Path.climbsAbove 0 (c.steps mode) = false →
        ∃ below, below ≠ [] ∧
          Path.resolve fs.current path = Path.resolve fs.current c.workspace ++ below) := by
  rcases s.generate_cases fs mode selection p with
    ⟨c, replies, l, makes, gives, result, gains⟩ | ⟨failed, -⟩
  · obtain rfl := Option.some.inj (Except.ok.inj (made.symm.trans result))
    have here : l = Path.resolve fs.current (c.path mode) := by
      rw [← gains.current]
      exact FileSystem.eq_resolve_of_locate gains.located
    obtain ⟨before, name, parts, named⟩ := gains.named
    have last : (Path.pieces (c.path mode)).getLast? = some name := by
      rw [parts, List.getLast?_concat]
    rw [here] at gains
    refine ⟨c, replies, makes, gives, rfl, ?_, gains.absent, ?_⟩
    · exact (gains.file_iff _ _).2 (.inr ⟨rfl, rfl⟩)
    · intro relative stays
      exact exists_below relative stays last named fs.current
  · exact absurd made (failed path)

/-- The name of an entity and a directory, and whatever is offered else. -/
def directoryAnswers (name directory : String) : Prompter :=
  .ofAnswers [some name, some directory] true

/-- With a directory inside the workspace the new file is there. -/
theorem generate_into_directory :
    (scriptSession.generate scriptFiles .interface none (directoryAnswers "Foo" "src")).result =
        .ok (some "/w/src/IFoo.ts") ∧
      ∃ text, (scriptSession.generate scriptFiles .interface none
        (directoryAnswers "Foo" "src")).files.at?
          (Path.resolve scriptFiles.current "/w/src/IFoo.ts") = some (.file (.text text)) := by
  have made : (scriptSession.generate scriptFiles .interface none
      (directoryAnswers "Foo" "src")).result = .ok (some "/w/src/IFoo.ts") := by decide +kernel
  obtain ⟨c, -, -, -, -, entry, -⟩ := generate_stays_inside _ _ _ _ _ _ made
  exact ⟨made, c.text scriptSession .interface, entry⟩

/-- Two dots as the directory lead out of the workspace, and so does a slash before the name. -/
theorem generate_outside_workspace :
    ((scriptSession.generate scriptFiles .interface none (directoryAnswers "Foo" "..")).result =
        .ok (some "/w/../IFoo.ts") ∧
      ¬ Path.resolve ["w"] "/w" <+: Path.resolve ["w"] "/w/../IFoo.ts") ∧
    ((scriptSession.generate scriptFiles .implementation none
        (directoryAnswers "/Foo" "")).result = .ok (some "/Foo.ts") ∧
      ¬ Path.resolve ["w"] "/w" <+: Path.resolve ["w"] "/Foo.ts") := by
  decide +kernel

end Session

/-! ## What stays behind -/

section Leftovers

variable {fs : FileSystem}

theorem Plan.at?_of_failed {directory path text : String} {failure : Failure}
    (failed : ((Plan.create directory path text).carryOut fs).1 = .error failure) (l : Location) :
    ((Plan.create directory path text).carryOut fs).2.at? l =
      (fs.makeDirectories directory).1.at? l := by
  rw [Plan.carryOut] at failed ⊢
  split at failed
  · next made fault begun => rw [begun]
  · next made begun =>
    rw [begun]
    rcases made.writeNew_cases path text with
      ⟨fs', l', written, -⟩ | ⟨fs', other, written, same⟩
    · rw [written] at failed
      cases failed
    · rw [written]
      exact same l

namespace Session

variable {s : Session} {mode : Scaffold.Mode} {selection : Option String}
  {replies : List (Prompt × String)} {p : Prompter} {c : Choices}

theorem generate_files_of_not_makes (fs : FileSystem)
    (none_ : ∀ c replies, s.Makes mode selection p.isInteractive replies c →
      ¬ p.Gives [] replies) :
    (s.generate fs mode selection p).files = fs := by
  unfold generate
  rcases (s.dialogue mode selection p.isInteractive).exists_leads p [] with
    cancelled | ⟨replies, leads, gives⟩
  · rw [← Prod.eta ((s.dialogue mode selection p.isInteractive).run p []), cancelled]
    rfl
  · cases planned : ((s.dialogue mode selection p.isInteractive).run p []).1 with
    | create directory path text =>
      rw [planned] at leads
      obtain ⟨c, makes, -⟩ := (s.dialogue_leads_iff _ _ _ _ _ _ _).1 leads
      exact absurd gives (none_ c replies makes)
    | cancel | fail failure =>
      rw [← Prod.eta ((s.dialogue mode selection p.isInteractive).run p []), planned]
      rfl

/-- After a failure everything is there that was there before, and what is new are directories:
those that were made for the place of the new file. Nothing is new exactly when no directory on
the way to that place could be made as things were: the place was there already, or what is missing
of it cannot be begun, or the failure came before the place was known. -/
theorem generate_leaves {s : Session} {fs : FileSystem} {mode : Scaffold.Mode}
    {selection : Option String} {p : Prompter} {failure : Failure}
    (failed : (s.generate fs mode selection p).result = .error failure) :
    let g := s.generate fs mode selection p
    (∀ l e, fs.at? l = some e → g.files.at? l = some e) ∧
    (∀ l e, g.files.at? l = some e → fs.at? l = some e ∨ e = .directory) ∧
    (∀ c replies, s.Makes mode selection p.isInteractive replies c → p.Gives [] replies →
      ∀ l, g.files.at? l = (fs.makeDirectories c.place).1.at? l) ∧
    ((∀ l, g.files.at? l = fs.at? l) ↔
      ∀ c replies, s.Makes mode selection p.isInteractive replies c → p.Gives [] replies →
        ∀ q ∈ Path.way c.place, ∀ made, fs.makeDirectory q ≠ .ok made) := by
  intro g
  have left {c replies} (makes : s.Makes mode selection p.isInteractive replies c)
      (gives : p.Gives [] replies) (l : Location) :
      g.files.at? l = (fs.makeDirectories c.place).1.at? l := by
    rw [generate_of_makes makes gives] at failed
    show (s.generate fs mode selection p).files.at? l = _
    rw [generate_files_of_makes makes gives, Plan.at?_of_failed failed]
  by_cases settled : ∃ c replies, s.Makes mode selection p.isInteractive replies c ∧
    p.Gives [] replies
  · obtain ⟨c, replies, makes, gives⟩ := settled
    have adds := fs.makeDirectories_adds c.place
    refine ⟨fun l e there => ?_, fun l e there => ?_, fun _ _ => left,
      fun same c' replies' makes' gives' => ?_, fun none_ l => ?_⟩
    · exact (left makes gives l).trans (adds.kept l e there)
    · exact adds.added l e ((left makes gives l).symm.trans there)
    · exact (fs.makeDirectories_at?_iff c'.place).1 fun l =>
        (left makes' gives' l).symm.trans (same l)
    · exact (left makes gives l).trans
        ((fs.makeDirectories_at?_iff c.place).2 (none_ c replies makes gives) l)
  · have untouched : g.files = fs := generate_files_of_not_makes fs fun c replies makes gives =>
      settled ⟨c, replies, makes, gives⟩
    rw [untouched]
    refine ⟨fun _ _ there => there, fun _ _ there => .inl there, fun c replies makes gives => ?_,
      fun _ c replies makes gives => ?_, fun _ _ => rfl⟩
    · exact absurd ⟨c, replies, makes, gives⟩ settled
    · exact absurd ⟨c, replies, makes, gives⟩ settled

/-- The replies for a place on the way to which a directory is missing. -/
def detour : Prompter := .ofAnswers [some "Foo", some "new/..", some "ts"] true

/-- The name of the new file is taken, which is found out behind a new directory. -/
theorem generate_leaves_directory :
    (scriptSession.generate scriptFiles .implementation none detour).result =
        .error (.destinationConflict "/w/new/../Foo.ts") ∧
      scriptFiles.at? ["w", "new"] = none ∧
      (scriptSession.generate scriptFiles .implementation none detour).files.at? ["w", "new"] =
        some .directory := by
  decide +kernel

/-- A directory on the way to that place could be made, then. -/
theorem exists_new_directory_of_detour :
    ∃ c replies, scriptSession.Makes .implementation none true replies c ∧
      detour.Gives [] replies ∧ ∃ q ∈ Path.way c.place, ∃ made,
        scriptFiles.makeDirectory q = .ok made := by
  have failed : (scriptSession.generate scriptFiles .implementation none detour).result =
    .error (.destinationConflict "/w/new/../Foo.ts") := by decide +kernel
  have left : (scriptSession.generate scriptFiles .implementation none detour).files.at?
    ["w", "new"] ≠ scriptFiles.at? ["w", "new"] := by decide +kernel
  by_contra none_
  refine left ((generate_leaves failed).2.2.2.2 ?_ ["w", "new"])
  intro c replies makes gives q member made new
  exact none_ ⟨c, replies, makes, gives, q, member, made, new⟩

end Session

end Leftovers

end CodeOutline
