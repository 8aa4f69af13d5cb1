import CodeOutline.Proofs.Analysis.Columns

/-!
Comments of robot programs. What stands on a line from its first exclamation mark on does not
matter: the outline is that of the text without it, and so are all places, counted in bytes or in
characters.
-/

set_option autoImplicit false

namespace CodeOutline.Analysis.Rapid

open Text (dropReturn splitChars turned)

/-- What stands in front of the first exclamation mark. -/
def frontOf (line : List Char) : List Char := line.takeWhile (· != '!')

/-- The lines of a text, each up to its first exclamation mark. -/
def codeLines (text : String) : List (List Char) :=
  (splitChars (· == '\n') text.toList).map frontOf

def silenced (text : String) : String := String.ofList (['\n'].intercalate (codeLines text))

/-! ## Lines without their comments -/

section Line

variable {front raw : List Char} {n : Nat}

theorem placeInLine_of_leads {name : String} (leads : front <+: raw)
    (inside : name.toList <:+: front) :
    Text.placeInLine n (String.ofList raw) name =
      Text.placeInLine n (String.ofList front) name := by
  obtain ⟨behind, rfl⟩ := leads
  obtain ⟨before, after, cut⟩ := Text.exists_cutFirst? inside
  simp only [Text.placeInLine, Text.byteColumn?, String.toList_ofList, cut,
    Text.cutFirst?_append_of_some cut, Option.map_some]

theorem stepOf?_of_leads (leads : front <+: raw)
    (same : codeOf (String.ofList raw) = codeOf (String.ofList front)) :
    stepOf? (String.ofList raw, n) = stepOf? (String.ofList front, n) := by
  have place (d : Declaration) (found : declaration? (codeOf (String.ofList front)) = some d) :
      spanOf (String.ofList raw, n) d.name = spanOf (String.ofList front, n) d.name := by
    have inside := name_inside found
    rw [String.toList_ofList] at inside
    exact placeInLine_of_leads leads inside
  unfold stepOf? moduleOf? memberOf? trapOf? methodOf visibilityOf
  simp only [same]
  cases found : declaration? (codeOf (String.ofList front)) with
  | none => rfl
  | some d =>
    have here := place d found
    cases d <;> simp only [Declaration.name] at here <;> simp only [here]

theorem codeOf_frontOf (cs : List Char) :
    codeOf (String.ofList (frontOf cs)) = codeOf (String.ofList cs) := by
  rw [codeOf_ofList, codeOf_ofList, frontOf, List.takeWhile_idem]

theorem dropReturn_leads (cs : List Char) : dropReturn cs <+: cs := by
  rcases Text.dropReturn_cases cs with same | longer
  · exact same.symm ▸ List.prefix_refl _
  · exact ⟨['\r'], longer.symm⟩

theorem dropReturn_concat (cs : List Char) : dropReturn (cs ++ ['\r']) = cs := by
  unfold dropReturn
  rw [List.reverse_append, List.reverse_singleton, List.singleton_append]
  exact List.reverse_reverse cs

theorem dropReturn_frontOf_leads (cs : List Char) : dropReturn (frontOf cs) <+: dropReturn cs := by
  have front (cs : List Char) : frontOf cs <+: cs := List.takeWhile_prefix _
  rcases Text.dropReturn_cases cs with same | longer
  · rw [same]
    exact (dropReturn_leads _).trans (front cs)
  · generalize dropReturn cs = kept at longer
    subst longer
    rw [frontOf, List.takeWhile_append]
    split
    · have back : ['\r'].takeWhile (· != '!') = ['\r'] := by decide
      rw [back, dropReturn_concat]
    · exact (dropReturn_leads _).trans (front kept)

def stepOfFront? (front : List Char × Nat) : Option BuildStep :=
  stepOf? (String.ofList (dropReturn front.1), front.2)

theorem stepOf?_dropReturn (piece : List Char) :
    stepOf? (String.ofList (dropReturn piece), n) = stepOfFront? (frontOf piece, n) := by
  refine stepOf?_of_leads (dropReturn_frontOf_leads piece) ?_
  rw [codeOf_dropReturn, codeOf_dropReturn, codeOf_frontOf]

theorem stepOf?_eq_front (piece : List Char) :
    stepOf? (String.ofList piece, n) = stepOfFront? (frontOf piece, n) := by
  refine stepOf?_of_leads ((dropReturn_frontOf_leads piece).trans (dropReturn_leads piece)) ?_
  rw [codeOf_dropReturn, codeOf_frontOf]

theorem stepOf?_empty : stepOf? (String.ofList [], n) = none := by
  have nothing : declaration? (codeOf (String.ofList [])) = none := by decide
  unfold stepOf? moduleOf? memberOf? trapOf?
  simp only [nothing]
  rfl

end Line

/-! ## Texts without their comments -/

theorem steps_eq (text : String) :
    (linesOf text).filterMap stepOf? = (codeLines text).zipIdx.filterMap stepOfFront? := by
  obtain ⟨pieces, last, split⟩ := (splitChars (· == '\n') text.toList).eq_nil_or_concat.resolve_left
    (Text.splitChars_ne_nil _ text.toList)
  rw [List.concat_eq_append] at split
  have early : ((pieces.map dropReturn).map String.ofList).zipIdx.filterMap stepOf? =
      (pieces.map frontOf).zipIdx.filterMap stepOfFront? := by
    rw [List.map_map, List.zipIdx_map, List.zipIdx_map, List.filterMap_map, List.filterMap_map]
    refine List.filterMap_congr (fun (piece, n) _ => ?_)
    simp only [Function.comp_apply, Prod.map_apply, id_eq, stepOf?_dropReturn]
  have late (n : Nat) : (((if last = [] then [] else [last]).map String.ofList).zipIdx n).filterMap
      stepOf? = ([frontOf last].zipIdx n).filterMap stepOfFront? := by
    have whole := stepOf?_eq_front (n := n) last
    rw [List.zipIdx_singleton, List.filterMap_cons, ← whole, List.filterMap_nil]
    split
    · next nothing =>
      -- An empty last piece is no line; as one it would bring nothing.
      rw [nothing, stepOf?_empty, List.map_nil, List.zipIdx_nil, List.filterMap_nil]
    · rw [List.map_singleton, List.zipIdx_singleton, List.filterMap_cons, List.filterMap_nil]
  have lines : linesOf text = ((pieces.map dropReturn).map String.ofList ++
      (if last = [] then [] else [last]).map String.ofList).zipIdx := by
    rw [linesOf, Text.lines, Text.lineChars_concat split, List.map_append]
  have fronts : codeLines text = pieces.map frontOf ++ [frontOf last] := by
    rw [codeLines, split, List.map_append, List.map_singleton]
  rw [lines, fronts, List.zipIdx_append, List.zipIdx_append, List.filterMap_append,
    List.filterMap_append, early, late]
  simp only [List.length_map]

theorem splitChars_silenced (text : String) :
    splitChars (· == '\n') (silenced text).toList = codeLines text := by
  rw [silenced, String.toList_ofList]
  refine Text.splitChars_intercalate (by decide) (fun front member c inside => ?_) ?_
  · obtain ⟨piece, among, rfl⟩ := List.mem_map.1 member
    exact Text.others_of_mem_splitChars among c
      ((List.takeWhile_sublist _).subset inside)
  · exact fun nothing => Text.splitChars_ne_nil _ text.toList (List.map_eq_nil_iff.1 nothing)

theorem codeLines_silenced (text : String) : codeLines (silenced text) = codeLines text := by
  have again (piece : List Char) : frontOf (frontOf piece) = frontOf piece := by
    rw [frontOf, frontOf, List.takeWhile_idem]
  rw [codeLines, splitChars_silenced, codeLines, List.map_map]
  exact List.map_congr_left (fun piece _ => again piece)

theorem tree_silenced (text : String) : tree (silenced text) = tree text := by
  rw [tree_eq_build, tree_eq_build, steps_eq, steps_eq, codeLines_silenced]

theorem turned_silenced {text : String} {p : Point} (within : Text.IsWithin (silenced text) p) :
    turned (silenced text) p = turned text p := by
  obtain ⟨front, back, here, column⟩ := within
  have piece := Text.getElem?_splitChars_iff.2 here
  rw [splitChars_silenced, codeLines, List.getElem?_map] at piece
  obtain ⟨line, there, code⟩ := Option.map_eq_some_iff.1 piece
  obtain ⟨comment, whole⟩ : frontOf line <+: line := List.takeWhile_prefix _
  rw [code, List.append_assoc] at whole
  rw [← whole] at there
  rw [Text.turned_of_isLine here, Text.turned_of_isLine (Text.getElem?_splitChars_iff.1 there),
    column, Text.charsBefore_byteLength, Text.charsBefore_byteLength]

end CodeOutline.Analysis.Rapid

namespace CodeOutline.Analyzer

open Analysis.Rapid

theorem analyze_rapid (d : Document) (c : Config) :
    Analyzer.rapid.analyze d c =
      .ok ((tree (silenced d.text)).useCharColumns (silenced d.text)) := by
  have reading : Analyzer.rapid.read d (c.language d.language) = .ok (tree d.text) := rfl
  have turns : (tree d.text).useCharColumns d.text =
      (tree (silenced d.text)).useCharColumns (silenced d.text) := by
    rw [tree_silenced]
    refine TokenTree.mapSpan_eq_mapSpan_iff.2 (fun s member => ?_)
    have within : Text.IsSpan (silenced d.text) s := by
      have each := eachSpan_tree (silenced d.text)
      rw [tree_silenced] at each
      exact TokenTree.EachSpan.iff_spans.1 each s member
    have start := turned_silenced within.1
    have stop := turned_silenced within.2
    exact (congrArg₂ Span.mk start stop).symm
  rw [analyze_of_read reading, ← turns]
  split
  · next ascii =>
    have whole : ¬Analyzer.rapid.HasBrokenName d := fun broken => nomatch broken.1
    rw [(useCharColumns_eq_iff reading ascii).2 whole]
  · rfl

/-- Comments are inert: two robot programs with the same lines up to the first exclamation mark of
each have the same outline, with the same places in characters, whatever stands behind the marks. -/
theorem rapid_comments_inert {d e : Document} (same : codeLines d.text = codeLines e.text)
    (c c' : Config) :
    ∃ t, Analyzer.rapid.analyze d c = .ok t ∧ Analyzer.rapid.analyze e c' = .ok t := by
  have texts : silenced d.text = silenced e.text := by rw [silenced, silenced, same]
  exact ⟨_, analyze_rapid d c, by rw [analyze_rapid, texts]⟩

/-- A program whose comments are of single bytes. -/
def plainRemarks : Document :=
  { language := "rapid", file := "a.mod"
    text := "MODULE A ! main\r\nPROC add(num a)!\n  LOCAL FUNC num b() ! end" }

/-- The program with comments that repeat its names, have declarations and wider characters. -/
def wideRemarks : Document :=
  { plainRemarks with
    text := "MODULE A ! \u00e9 A\r\nPROC add(num a)! add ! PROC c()\n  LOCAL FUNC num b() !TRAP b" }

theorem rapid_comments_inert_remarks : Text.isAscii plainRemarks.text = true ∧
    Text.isAscii wideRemarks.text = false ∧
    codeLines plainRemarks.text = codeLines wideRemarks.text ∧
    ∃ t, Analyzer.rapid.analyze plainRemarks {} = .ok t ∧
      Analyzer.rapid.analyze wideRemarks {} = .ok t := by
  have same : codeLines plainRemarks.text = codeLines wideRemarks.text := by decide +kernel
  exact ⟨by decide +kernel, by decide +kernel, same, rapid_comments_inert same {} {}⟩

end CodeOutline.Analyzer
