import CodeOutline.Analysis.Rapid
import CodeOutline.Proofs.Text.Occurrence
import CodeOutline.Proofs.Text.Pieces
import CodeOutline.Proofs.Text.Trimming
import CodeOutline.Proofs.Token.Collections
import CodeOutline.Proofs.Token.Placed

/-!
What the lines of a robot program bring to its outline, each told from the line alone: a module,
a member of the module that was added last, or a trap. The outline is built from these.
-/

set_option autoImplicit false

namespace CodeOutline.Analysis.Rapid

/-- A line of a program and its number. -/
abbrev Line := String × Nat

/-- The lines of a program with their numbers. -/
def linesOf (text : String) : List Line := (Text.lines text).zipIdx

theorem map_fst_linesOf (text : String) : (linesOf text).map Prod.fst = Text.lines text := by
  rw [linesOf, List.zipIdx_map_fst]

/-- What stands on a line in front of the comment, without blanks around it. -/
def codeOf (raw : String) : String := Text.trim (withoutComment raw)

theorem codeOf_ofList (cs : List Char) :
    codeOf (String.ofList cs) = String.ofList (Text.trimChars (cs.takeWhile (· != '!'))) := by
  simp [codeOf, Text.trim, withoutComment]

theorem codeOf_dropReturn (cs : List Char) :
    codeOf (String.ofList (Text.dropReturn cs)) = codeOf (String.ofList cs) := by
  rcases Text.dropReturn_cases cs with same | longer
  · rw [same]
  · rw [codeOf_ofList, codeOf_ofList]
    generalize Text.dropReturn cs = front at longer
    rw [longer, List.takeWhile_append]
    split
    · next whole =>
      have all : front.takeWhile (· != '!') = front :=
        (List.takeWhile_prefix _).eq_of_length whole
      have back : ['\r'].takeWhile (· != '!') = ['\r'] := by decide
      rw [all, back, Text.trimChars_append_blanks front (List.forall_mem_singleton.2 (by decide))]
    · rfl

/-- What a module holds: a record, or a routine. -/
inductive Member
  | record (p : PropertyToken)
  | routine (m : MethodToken)

namespace Member

def record? : Member → Option PropertyToken
  | .record p => some p
  | .routine _ => none

def routine? : Member → Option MethodToken
  | .record _ => none
  | .routine m => some m

/-- The member alone, as it is added to an entity. -/
def alone : Member → EntityToken
  | .record p => { name := "", properties := [p] }
  | .routine m => { name := "", methods := [m] }

end Member

section Brings

variable (line : Line)

def spanOf (name : String) : Span := Text.placeInLine line.2 line.1 name

def visibilityOf : Visibility :=
  if Text.contains (codeOf line.1) "LOCAL" then .priv else .pub

/-- The routine or the trap that a line declares. -/
def methodOf (type : Option String) (name : String) : MethodToken :=
  { name, span := some (spanOf line name), type := some (type.getD noType)
    visibility := visibilityOf line }

/-- The module that a line begins. -/
def moduleOf? : Option EntityToken :=
  match declaration? (codeOf line.1) with
  | some (.module name) =>
    if name.isEmpty then none else some { name, span := some (spanOf line name) }
  | _ => none

/-- The member that a line declares. -/
def memberOf? : Option Member :=
  match declaration? (codeOf line.1) with
  | some (.record name) =>
    some (.record { name, span := some (spanOf line name), visibility := visibilityOf line })
  | some (.routine type name written) =>
    if name.isEmpty then none
    else some (.routine { methodOf line type name with arguments := arguments written })
  | _ => none

def trapOf? : Option MethodToken :=
  match declaration? (codeOf line.1) with
  | some (.trap type name) =>
    if name.isEmpty then none else some { methodOf line type name with isStatic := true }
  | _ => none

/-- The addition to an outline that a line makes. -/
def stepOf? : Option BuildStep :=
  ((moduleOf? line).map (.entity .class)).or
    (((memberOf? line).map (fun m => .lastClass m.alone)).or ((trapOf? line).map .function))

theorem addLine_eq_step (t : TokenTree) : addLine t line = (stepOf? line).elim t t.step := by
  obtain ⟨raw, number⟩ := line
  unfold addLine stepOf? moduleOf? memberOf? trapOf?
  dsimp only
  cases found : declaration? (codeOf raw) with
  | none =>
    rw [codeOf] at found
    rw [found]
    rfl
  | some d =>
    rw [codeOf] at found
    rw [found]
    cases d with
    | record name => rfl
    | module name | routine type name written =>
      cases empty : name.isEmpty <;> simp only [empty] <;> rfl
    | trap type name =>
      cases empty : name.isEmpty
      · simp only [empty, methodOf, spanOf, visibilityOf, codeOf, Bool.false_eq_true, if_false,
          Option.map_none, Option.map_some, Option.none_or, Option.elim_some, TokenTree.step]
        rfl
      · simp only [empty]
        rfl

theorem entity?_stepOf? (kind : EntityKind) :
    (stepOf? line).bind (BuildStep.entity? kind) =
      if kind = .class then moduleOf? line else none := by
  unfold stepOf?
  cases moduleOf? line with
  | some e =>
    cases kind <;> rfl
  | none =>
    rw [ite_self]
    cases memberOf? line with
    | some m => rfl
    | none => cases trapOf? line <;> rfl

end Brings

theorem tree_eq_build (text : String) :
    tree text = TokenTree.build ((linesOf text).filterMap stepOf?) := by
  rw [tree, TokenTree.build, List.foldl_filterMap]
  refine List.foldl_ext _ _ _ (fun t line _ => ?_)
  rw [addLine_eq_step]
  cases stepOf? line <;> rfl

/-!
The places in outlines of robot programs. A name is a part of its line as it is, however the line
was trimmed and taken apart; so it is found there.
-/

open Text (StandsAt byteCount)

/-- The name of what is declared. -/
def Declaration.name : Declaration → String
  | .routine _ name _ | .trap _ name | .record name | .module name => name

/-! Names in lines -/

section Names

variable {cs rest : List Char} {d : Declaration}

theorem suffix_of_dropStart? {start : List Char} (drop : Text.dropStart? start cs = some rest) :
    rest <:+ cs := by
  rw [← Syntax.Scan.append_of_dropStart? drop]
  exact List.suffix_append _ _

theorem dropBlank_ends (cs : List Char) : dropBlank cs <:+ cs := by
  unfold dropBlank
  split
  · split
    · exact List.suffix_cons _ _
    · exact List.suffix_refl _
  · exact List.suffix_refl _

theorem typeAndName_inside (body : List Char) : (typeAndName body).2.toList <:+: body := by
  have whole : (String.ofList (Text.trimChars body)).toList <:+: body := by
    rw [String.toList_ofList]
    exact Text.trimChars_inside body
  unfold typeAndName
  dsimp only
  split
  · next c d rest _ behind =>
    split
    · have back : d :: rest <:+ body := by
        have tail : d :: rest <:+ c :: d :: rest := List.suffix_cons _ _
        rw [← behind] at tail
        exact tail.trans (List.drop_suffix _ _)
      rw [String.toList_ofList]
      exact (Text.trimChars_inside _).trans back.isInfix
    · exact whole
  · exact whole

theorem suffix_of_afterRoutineWord? (found : afterRoutineWord? cs = some rest) : rest <:+ cs := by
  have keyword {cs rest : List Char} (found : (Text.dropStart? "PROC".toList cs).or
      (Text.dropStart? "FUNC".toList cs) = some rest) : rest <:+ cs := by
    rcases Option.or_eq_some_iff.1 found with drop | ⟨-, drop⟩ <;> exact suffix_of_dropStart? drop
  have spaced {cs rest : List Char} (found : ((Text.dropStart? "PROC".toList (dropBlank cs)).or
      (Text.dropStart? "FUNC".toList (dropBlank cs))).or ((Text.dropStart? "PROC".toList cs).or
        (Text.dropStart? "FUNC".toList cs)) = some rest) : rest <:+ cs := by
    rcases Option.or_eq_some_iff.1 found with blank | ⟨-, plain⟩
    · exact (keyword blank).trans (dropBlank_ends cs)
    · exact keyword plain
  simp only [afterRoutineWord?, Option.orElse_eq_or] at found
  rcases Option.or_eq_some_iff.1 found with marked | ⟨-, unmarked⟩
  · obtain ⟨behind, drop, found⟩ := Option.bind_eq_some_iff.1 marked
    exact (spaced found).trans (suffix_of_dropStart? drop)
  · exact spaced unmarked

theorem routine?_inside (found : routine? cs = some d) : d.name.toList <:+: cs := by
  obtain ⟨rest, word, found⟩ := Option.bind_eq_some_iff.1 found
  obtain ⟨⟨body, written⟩, call, found⟩ := Option.bind_eq_some_iff.1 found
  obtain rfl := Option.some.inj found
  obtain ⟨⟨before, behind⟩, cut, ends⟩ := Option.bind_eq_some_iff.1 call
  obtain ⟨inside, -, same⟩ := Option.bind_eq_some_iff.1 ends
  obtain ⟨rfl, rfl⟩ := Prod.mk.inj (Option.some.inj same)
  have front : before <:+: dropBlank rest := by
    rw [← Text.append_of_cutFirst? cut, List.append_assoc]
    exact (List.prefix_append _ _).isInfix
  have back : dropBlank rest <:+ cs :=
    (dropBlank_ends rest).trans (suffix_of_afterRoutineWord? word)
  exact ((typeAndName_inside before).trans front).trans back.isInfix

theorem trap?_inside (found : trap? cs = some d) : d.name.toList <:+: cs := by
  obtain ⟨rest, word, found⟩ := Option.bind_eq_some_iff.1 found
  dsimp only at found
  split at found
  · cases found
  · obtain rfl := Option.some.inj found
    have back : dropBlank rest <:+ cs := (dropBlank_ends rest).trans (suffix_of_dropStart? word)
    exact (typeAndName_inside _).trans back.isInfix

theorem record?_inside (found : record? cs = some d) : d.name.toList <:+: cs := by
  obtain ⟨rest, word, found⟩ := Option.bind_eq_some_iff.1 found
  dsimp only at found
  split at found
  · obtain rfl := Option.some.inj found
    have back : dropBlank rest <:+ cs := (dropBlank_ends rest).trans (suffix_of_dropStart? word)
    rw [Declaration.name, String.toList_ofList]
    exact back.isInfix
  · cases found

theorem module?_inside (found : module? cs = some d) : d.name.toList <:+: cs := by
  obtain ⟨rest, word, found⟩ := Option.bind_eq_some_iff.1 found
  split at found
  · next c rest =>
    split at found
    · obtain rfl := Option.some.inj found
      have back : rest <:+ cs := (List.suffix_cons _ _).trans (suffix_of_dropStart? word)
      have front : rest.takeWhile (· != '(') <:+: rest := (List.takeWhile_prefix _).isInfix
      rw [Declaration.name, String.toList_ofList]
      exact ((Text.trimChars_inside _).trans front).trans back.isInfix
    · cases found
  · cases found

theorem name_inside {raw : String} (found : declaration? (codeOf raw) = some d) :
    d.name.toList <:+: raw.toList := by
  have code : (codeOf raw).toList <:+: raw.toList := by
    rw [codeOf, Text.trim, withoutComment, String.toList_ofList, String.toList_ofList]
    exact (Text.trimChars_inside _).trans (List.takeWhile_prefix _).isInfix
  refine .trans ?_ code
  simp only [declaration?, Option.orElse_eq_or] at found
  rcases Option.or_eq_some_iff.1 found with routine | ⟨-, found⟩
  · exact routine?_inside routine
  rcases Option.or_eq_some_iff.1 found with trap | ⟨-, found⟩
  · exact trap?_inside trap
  rcases Option.or_eq_some_iff.1 found with record | ⟨-, module⟩
  · exact record?_inside record
  · exact module?_inside module

end Names

/-! Outlines -/

theorem placed_addLine {text : String} {t : TokenTree} (placed : t.Placed (StandsAt byteCount text))
    {line : Line} (member : line ∈ linesOf text) :
    (addLine t line).Placed (StandsAt byteCount text) := by
  obtain ⟨raw, number⟩ := line
  have there : (Text.lines text)[number]? = some raw := List.mem_zipIdx_iff_getElem?.1 member
  have right (d : Declaration) (found : declaration? (Text.trim (withoutComment raw)) = some d) :
      ∀ s ∈ some (Text.placeInLine number raw d.name), StandsAt byteCount text d.name s := by
    rintro s ⟨⟩
    exact Text.standsAt_placeInLine there (name_inside found)
  unfold addLine
  dsimp only
  split
  · exact placed
  · next name found =>
    have place := right (.module name) found
    split
    · exact placed
    · exact placed.addClass ⟨place, nofun, nofun⟩
  · next name found =>
    have place := right (.record name) found
    exact placed.updateLastClass (fun e own => own.addProperty place)
  · next type name written found =>
    have place := right (.routine type name written) found
    split
    · exact placed
    · exact placed.updateLastClass (fun e own => own.addMethod place)
  · next type name found =>
    have place := right (.trap type name) found
    split
    · exact placed
    · exact placed.addFunction place

theorem placed_tree (text : String) : (tree text).Placed (StandsAt byteCount text) :=
  TokenTree.Placed.empty.foldl (fun placed _ member => placed_addLine placed member)

end CodeOutline.Analysis.Rapid
