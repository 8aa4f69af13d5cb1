import CodeOutline.Proofs.FileSystem.Changes
import CodeOutline.Proofs.Session.Replies
import Mathlib.Control.Monad.Basic

/-!
New files and the file system. All effects come after the last question, and the file is made
where nothing was before or not at all, so that no run of the questions harms another file.
-/

set_option autoImplicit false

namespace CodeOutline

namespace FileSystem

variable {fs made fs' : FileSystem} {l : Location} {path text : String}

private theorem locate_put_file (located : made.locate path = .ok l) {c : Content}
    (file : made.at? l = some (.file c)) (d : Content) :
    (made.put l (.file d)).locate path = .ok l := by
  have kept : ∀ l', made.at? l' = some .directory →
      (made.put l (.file d)).at? l' = some .directory := by
    intro l' there
    have other : l' ≠ l := by
      rintro rfl
      simp [file] at there
    rw [at?_put_of_ne made _ other, there]
  unfold locate at located ⊢
  split at located
  · cases located
  · next filled =>
    rw [if_neg filled]
    exact walk_of_kept kept located

/-- The files are those of before and one more with that text, where nothing was. The path
leads to it by a name at its end. -/
structure GainsFile (fs fs' : FileSystem) (path text : String) (l : Location) : Prop where
  located : fs'.locate path = .ok l
  named : ∃ before name, Path.pieces path = before ++ [name] ∧ isDots name = false
  current : fs'.current = fs.current
  absent : fs.at? l = none
  file_iff : ∀ l' c, fs'.at? l' = some (.file c) ↔
    fs.at? l' = some (.file c) ∨ (l' = l ∧ c = .text text)

theorem GainsFile.of_addsDirectories (adds : AddsDirectories fs made)
    (gains : GainsFile made fs' path text l) : GainsFile fs fs' path text l where
  located := gains.located
  named := gains.named
  current := gains.current.trans adds.current
  absent := by
    cases there : fs.at? l with
    | none => rfl
    | some e => exact absurd (gains.absent.symm.trans (adds.kept l e there)) (by simp)
  file_iff l' c := by rw [gains.file_iff, adds.file_iff]

theorem writeNew_cases (fs : FileSystem) (path text : String) :
    (∃ fs' l, fs.writeNew path text = (fs', .ok ()) ∧ GainsFile fs fs' path text l) ∨
    (∃ fs' failure, fs.writeNew path text = (fs', .error failure) ∧
      ∀ l, fs'.at? l = fs.at? l) := by
  unfold writeNew
  split
  · exact .inr ⟨fs, _, rfl, fun _ => rfl⟩
  · exact .inr ⟨fs, _, rfl, fun _ => rfl⟩
  next made created =>
  obtain ⟨before, name, l, parts, named, adds, located, current⟩ := create_adds created
  have leads (c : Content) : (made.put l (.file c)).locate path = .ok l :=
    locate_put_file located adds.entry c
  have written : made.fill path text = (made.put l (.file (.text text)), .ok ()) ∨
      ∃ c, made.fill path text = (made.put l (.file c), .error .full) := by
    unfold fill
    rw [located]
    simp only
    split
    · exact .inl rfl
    · split
      · exact .inl rfl
      · exact .inr ⟨_, rfl⟩
  rcases written with whole | ⟨c, part⟩
  · rw [whole]
    exact .inl ⟨_, l, rfl, leads _, ⟨before, name, parts, named⟩, current, adds.absent,
      (adds.overwrite _).file_iff⟩
  · rw [part]
    refine .inr ⟨_, _, rfl, fun l' => ?_⟩
    rw [unlink, leads c]
    exact (adds.overwrite c).at?_remove l'

end FileSystem

theorem Plan.carryOut_cases (fs : FileSystem) (plan : Plan) :
    (∃ directory path text l, plan = .create directory path text ∧
      (plan.carryOut fs).1 = .ok (some path) ∧
      fs.GainsFile (plan.carryOut fs).2 path text l) ∨
    ((∀ path, (plan.carryOut fs).1 ≠ .ok (some path)) ∧
      ∀ l c, (plan.carryOut fs).2.at? l = some (.file c) ↔ fs.at? l = some (.file c)) := by
  cases plan with
  | fail failure => exact .inr ⟨by simp [Plan.carryOut], fun _ _ => .rfl⟩
  | cancel => exact .inr ⟨by simp [Plan.carryOut], fun _ _ => .rfl⟩
  | create directory path text =>
    have adds := fs.makeDirectories_adds directory
    rw [Plan.carryOut]
    split
    · next made fault begun =>
      rw [begun] at adds
      exact .inr ⟨by simp, adds.file_iff⟩
    · next made begun =>
      rw [begun] at adds
      rcases made.writeNew_cases path text with
        ⟨fs', l, written, gains⟩ | ⟨fs', failure, written, same⟩
      · rw [written]
        exact .inl ⟨directory, path, text, l, rfl, rfl, gains.of_addsDirectories adds⟩
      · rw [written]
        exact .inr ⟨by simp [Except.map], fun l c => by rw [same, adds.file_iff]⟩

namespace Session

variable {s : Session} {mode : Scaffold.Mode} {selection : Option String}
  {replies : List (Prompt × String)} {p : Prompter} {c : Choices}

theorem generate_eq_of_makes (makes : s.Makes mode selection p.isInteractive replies c)
    (gives : p.Gives [] replies) (fs : FileSystem) :
    s.generate fs mode selection p = {
      result := ((Plan.create c.place (c.path mode) (c.text s mode)).carryOut fs).1
      files := ((Plan.create c.place (c.path mode) (c.text s mode)).carryOut fs).2
      asked := replies.map Prod.fst } := by
  have leads := (s.dialogue_leads_iff mode selection p.isInteractive replies _ _ _).2
    ⟨c, makes, rfl, rfl, rfl⟩
  unfold generate
  rw [Dialogue.run_of_leads leads gives]
  generalize Plan.create c.place (c.path mode) (c.text s mode) = plan
  rfl

theorem generate_of_makes (makes : s.Makes mode selection p.isInteractive replies c)
    (gives : p.Gives [] replies) (fs : FileSystem) :
    (s.generate fs mode selection p).result =
      ((Plan.create c.place (c.path mode) (c.text s mode)).carryOut fs).1 := by
  rw [generate_eq_of_makes makes gives]

theorem generate_files_of_makes (makes : s.Makes mode selection p.isInteractive replies c)
    (gives : p.Gives [] replies) (fs : FileSystem) :
    (s.generate fs mode selection p).files =
      ((Plan.create c.place (c.path mode) (c.text s mode)).carryOut fs).2 := by
  rw [generate_eq_of_makes makes gives]

/-- A new file is the one that the replies make the choices for; without one all files stay
as they are. -/
theorem generate_cases (s : Session) (fs : FileSystem) (mode : Scaffold.Mode)
    (selection : Option String) (p : Prompter) :
    (∃ c replies l, s.Makes mode selection p.isInteractive replies c ∧ p.Gives [] replies ∧
      (s.generate fs mode selection p).result = .ok (some (c.path mode)) ∧
      fs.GainsFile (s.generate fs mode selection p).files (c.path mode) (c.text s mode) l) ∨
    ((∀ path, (s.generate fs mode selection p).result ≠ .ok (some path)) ∧
      ∀ l content, (s.generate fs mode selection p).files.at? l = some (.file content) ↔
        fs.at? l = some (.file content)) := by
  have result : (s.generate fs mode selection p).result =
    (((s.dialogue mode selection p.isInteractive).run p []).1.carryOut fs).1 := rfl
  have files : (s.generate fs mode selection p).files =
    (((s.dialogue mode selection p.isInteractive).run p []).1.carryOut fs).2 := rfl
  rw [result, files]
  rcases ((s.dialogue mode selection p.isInteractive).run p []).1.carryOut_cases fs with
    ⟨directory, path, text, l, planned, made, gains⟩ | same
  · rcases (s.dialogue mode selection p.isInteractive).exists_leads p [] with
      cancelled | ⟨replies, leads, gives⟩
    · rw [cancelled] at planned
      cases planned
    · rw [planned] at leads
      obtain ⟨c, makes, -, whole, content⟩ := (s.dialogue_leads_iff _ _ _ _ _ _ _).1 leads
      rw [whole] at made gains
      rw [content] at gains
      exact .inl ⟨c, replies, l, makes, gives, made, gains⟩
  · exact .inr same

/-! Paths that are taken -/

/-- A path that leads to something when the file is to be made is reported as taken. One that
ends in a slash may also be refused because it asks for a directory. -/
theorem carryOut_of_isThere {fs made : FileSystem} {directory path : String}
    (begun : fs.makeDirectories directory = (made, .ok ())) (there : made.isThere path = true)
    (text : String) :
    ((Plan.create directory path text).carryOut fs).1 = .error (.destinationConflict path) ∨
      (Text.endsWith path "/" = true ∧
        ((Plan.create directory path text).carryOut fs).1 =
          .error (.io IOFault.isDirectory.message)) := by
  rw [Plan.carryOut, begun]
  rcases FileSystem.create_of_isThere there with taken | ⟨slash, refused⟩
  · simp [FileSystem.writeNew, taken, Except.map]
  · exact .inr ⟨(Path.getLast?_ofText path).1 slash, by
      simp [FileSystem.writeNew, refused, Except.map]⟩

private theorem documentName_ends (l : Scaffold.Language) (target : String)
    {extension : Option String} (picked : extension.isSome = !(l.extensions mode).isEmpty) :
    ∃ name ending, l.documentName target mode extension = name ++ ending ∧ ending ≠ "" ∧
      (Text.endsWith ending "/" = true →
        extension = some ending ∧ ending ∉ l.extensions mode) := by
  have fixed {ending : String} (plain : Text.endsWith ending "/" = false) :
      Text.endsWith ending "/" = true → extension = some ending ∧ ending ∉ l.extensions mode := by
    intro slash
    rw [plain] at slash
    cases slash
  cases l with
  | php =>
    cases mode with
    | interface => exact ⟨_, "Interface.php", rfl, by decide, fixed (by decide)⟩
    | implementation => exact ⟨_, ".php", rfl, by decide, fixed (by decide)⟩
  | java => exact ⟨_, ".java", rfl, by decide, fixed (by decide)⟩
  | script =>
    cases mode with
    | interface => exact ⟨_, ".ts", rfl, by decide, fixed (by decide)⟩
    | implementation =>
      obtain ⟨ending, rfl⟩ := Option.isSome_iff_exists.1 picked
      simp only [Scaffold.Language.documentName, Scaffold.Script.documentName, Option.getD_some]
      by_cases filled : ending = ""
      · subst filled
        exact ⟨_, ".", String.append_empty, by decide, fixed (by decide)⟩
      · refine ⟨_, ending, rfl, filled, fun slash => ⟨rfl, fun offered => ?_⟩⟩
        have plain : ∀ e ∈ Scaffold.Language.script.extensions .implementation,
            Text.endsWith e "/" = false := by decide
        rw [plain ending offered] at slash
        cases slash

theorem extension_of_slash (makes : s.Makes mode selection p.isInteractive replies c)
    (slash : Text.endsWith (c.path mode) "/" = true) :
    ∃ extension, c.extension = some extension ∧ Text.endsWith extension "/" = true ∧
      extension ∉ c.language.extensions mode := by
  obtain ⟨name, ending, whole, filled, only⟩ :=
    documentName_ends c.language c.target makes.extension
  have named : name ++ ending ≠ "" := by simp [String.append_eq_empty_iff, filled]
  rw [Choices.path, Choices.fileName, whole, Path.endsWith_slash_join _ named,
    Path.endsWith_slash_append _ filled] at slash
  obtain ⟨chosen, other⟩ := only slash
  exact ⟨ending, chosen, slash, other⟩

/-- A request for a new file leaves all files as they are. When it gives a path there is one
new file, where nothing was before, with the text for the entity and the replies; else there is
none. Something at that path when the file is to be made is reported as taken, unless the path
ends in a slash, which takes an extension that is not offered. -/
theorem generate_keeps_files (s : Session) (fs : FileSystem) (mode : Scaffold.Mode)
    (selection : Option String) (p : Prompter) :
    let g := s.generate fs mode selection p
    (∀ l content, fs.at? l = some (.file content) → g.files.at? l = some (.file content)) ∧
    (∀ path, g.result = .ok (some path) →
      ∃ c replies l, s.Makes mode selection p.isInteractive replies c ∧ p.Gives [] replies ∧
        path = c.path mode ∧ g.files.locate path = .ok l ∧ fs.at? l = none ∧
        ∀ l' content, g.files.at? l' = some (.file content) ↔
          fs.at? l' = some (.file content) ∨ (l' = l ∧ content = .text (c.text s mode))) ∧
    ((∀ path, g.result ≠ .ok (some path)) →
      ∀ l content, g.files.at? l = some (.file content) → fs.at? l = some (.file content)) ∧
    (∀ c replies made, s.Makes mode selection p.isInteractive replies c → p.Gives [] replies →
      fs.makeDirectories c.place = (made, .ok ()) → made.isThere (c.path mode) = true →
      g.result = .error (.destinationConflict (c.path mode)) ∨
      (g.result = .error (.io IOFault.isDirectory.message) ∧
        ∃ extension, c.extension = some extension ∧ Text.endsWith extension "/" = true ∧
          extension ∉ c.language.extensions mode)) := by
  intro g
  have kept_or_new := s.generate_cases fs mode selection p
  refine ⟨?_, ?_, ?_, ?_⟩
  · intro l content there
    rcases kept_or_new with ⟨c, replies, l', -, -, -, gains⟩ | ⟨-, same⟩
    · exact (gains.file_iff l content).2 (.inl there)
    · exact (same l content).2 there
  · intro path result
    rcases kept_or_new with ⟨c, replies, l, makes, gives, made, gains⟩ | ⟨failed, -⟩
    · obtain rfl := Option.some.inj (Except.ok.inj (made.symm.trans result))
      exact ⟨c, replies, l, makes, gives, rfl, gains.located, gains.absent, gains.file_iff⟩
    · exact absurd result (failed path)
  · intro failed l content there
    rcases kept_or_new with ⟨c, replies, l', -, -, made, -⟩ | ⟨-, same⟩
    · exact absurd made (failed (c.path mode))
    · exact (same l content).1 there
  · intro c replies made makes gives begun there
    have carried : g.result = _ := generate_of_makes makes gives fs
    rw [carried]
    refine (carryOut_of_isThere begun there (c.text s mode)).imp id ?_
    rintro ⟨slash, refused⟩
    exact ⟨refused, extension_of_slash makes slash⟩

/-- A session about a script with one class. -/
def scriptSession : Session :=
  (start {} (some "/w")).run
    [.focus { language := "typescript", file := "a.ts", text := "class A {}" }]

/-- A workspace with a directory that is named like a script. -/
def scriptFiles : FileSystem where
  entries := [(["w"], .directory), (["w", "Foo.ts"], .directory)]
  current := ["w"]

/-- A picked extension that is not one of those offered. -/
def slashReplies : List (Prompt × String) :=
  [(namePrompt "A", "Foo"), (directoryPrompt, ""), (extensionPrompt ["ts", "js"], "ts/")]

def slashChoices (source : EntityKind × EntityToken) : Choices where
  workspace := "/w"
  document := { language := "typescript", file := "a.ts", text := "class A {}" }
  language := .script
  source := source
  target := "Foo"
  directory := ""
  extension := some "ts/"

private theorem makes_slashChoices :
    ∃ source, scriptSession.Makes .implementation none true slashReplies (slashChoices source) := by
  obtain ⟨source, only⟩ := List.length_eq_one_iff.1
    (show scriptSession.tree.entities.length = 1 by decide +kernel)
  have name : source.2.name = "A" := by
    have names : scriptSession.tree.entities.map (·.2.name) = ["A"] := by decide +kernel
    simpa [only] using names
  have active : scriptSession.active =
      some { language := "typescript", file := "a.ts", text := "class A {}" } := by decide +kernel
  have language : Scaffold.Language.ofId? "typescript" = some .script := by decide +kernel
  have named : (Name.splitTarget "Foo" Scaffold.Script.separator none).1.isEmpty = false := by
    decide +kernel
  have trimmed : "Foo" = Text.trim "Foo" := by decide +kernel
  have offered : Name.simple source.2.name Scaffold.Script.separator = "A" := by
    rw [name]
    decide +kernel
  refine ⟨source, rfl, active, language, named, rfl, [], "Foo", .only only, trimmed, ?_⟩
  show slashReplies = [(namePrompt (Name.simple source.2.name Scaffold.Script.separator), _), _, _]
  rw [offered]
  rfl

/-- With such an extension, something at the path of the new file is not reported as taken. -/
theorem generate_slash_over_directory :
    ∃ c made, scriptSession.Makes .implementation none true slashReplies c ∧
      (Prompter.ofAnswers [some "Foo", some "", some "ts/"] true).Gives [] slashReplies ∧
      scriptFiles.makeDirectories c.place = (made, .ok ()) ∧
      made.isThere (c.path .implementation) = true ∧
      (scriptSession.generate scriptFiles .implementation none
        (.ofAnswers [some "Foo", some "", some "ts/"] true)).result ≠
        .error (.destinationConflict (c.path .implementation)) := by
  obtain ⟨source, makes⟩ := makes_slashChoices
  have place : (slashChoices source).place = "/w/" := by
    have : directoryOf "/w" "" = "/w/" := by decide +kernel
    exact this
  have path : (slashChoices source).path .implementation = "/w/Foo.ts/" := by
    have name : Scaffold.Language.script.documentName "Foo" .implementation (some "ts/") =
      "Foo.ts/" := by decide +kernel
    have joined : Path.join "/w/" "Foo.ts/" = "/w/Foo.ts/" := by decide +kernel
    rw [Choices.path, place, Choices.fileName]
    exact (congrArg (Path.join "/w/") name).trans joined
  have made : (scriptFiles.makeDirectories "/w/").2 = .ok () := by decide +kernel
  refine ⟨slashChoices source, (scriptFiles.makeDirectories "/w/").1, makes, ?_, ?_, ?_, ?_⟩
  · exact ⟨by decide +kernel, by decide +kernel, by decide +kernel, trivial⟩
  · rw [place, ← made]
  · rw [path]
    decide +kernel
  · rw [path]
    decide +kernel

end Session

end CodeOutline
