import CodeOutline.Proofs.Json.Reading

/-!
How the grammar reads a written value: one node, whose token mirrors the value. The number of
rules that stand inside each other is bounded by the length of the text.
-/

set_option autoImplicit false

namespace CodeOutline.Analysis.Json

open Syntax Grammar.Json

/-! The token of a node by its kind, with the children of a container from its named nodes -/

def memberToken? (pair : Node) : Option DataToken :=
  if pair.kind = "pair" then
    (pair.child? "value").map
      (valueToken (((pair.child? "key").map (Text.unquote ·.text)).getD ""))
  else none

def itemTokens : Container → Nat → List Node → List DataToken
  | .object, _, nodes => nodes.filterMap memberToken?
  | .array, index, nodes =>
    (nodes.filter (·.kind != "comment")).mapIdx (fun i n => valueToken (toString (index + i)) n)

theorem itemTokens_nil (c : Container) (index : Nat) : itemTokens c index [] = [] := by
  cases c <;> rfl

theorem itemTokens_element {n : Node} (kind : n.kind ≠ "comment") (index : Nat)
    (others : List Node) :
    itemTokens .array index (n :: others) =
      valueToken (toString index) n :: itemTokens .array (index + 1) others := by
  have kept : (n.kind != "comment") = true := bne_iff_ne.2 kind
  have numbers : (fun i n => valueToken (toString (index + (i + 1))) n) =
      (fun i n => valueToken (toString (index + 1 + i)) n) := by
    funext i n
    rw [Nat.add_right_comm, Nat.add_assoc]
  simp only [itemTokens, List.filter_cons, kept, if_true, List.mapIdx_cons, numbers]
  rfl

theorem itemTokens_member {pair : Node} {token : DataToken}
    (member : memberToken? pair = some token) (index : Nat) (others : List Node) :
    itemTokens .object index (pair :: others) = token :: itemTokens .object (index + 1) others :=
  List.filterMap_cons_some member

private theorem filterMap_attach_member (nodes : List Node) :
    nodes.attach.filterMap (fun pair =>
      if pair.1.kind = "pair" then
        match _ : pair.1.child? "value" with
        | some member =>
          some (valueToken (((pair.1.child? "key").map (Text.unquote ·.text)).getD "") member)
        | none => none
      else none) = nodes.filterMap memberToken? := by
  rw [List.filterMap_subtype (g := memberToken?), List.unattach_attach]
  intro pair _
  unfold memberToken?
  split
  · split
    · next value => rw [value, Option.map_some]
    · next absent => rw [absent, Option.map_none]
  · rfl

private theorem mapIdx_attach_element (nodes : List Node) :
    (nodes.attach.filter (fun e => e.1.kind != "comment")).mapIdx
        (fun index e => valueToken (toString index) e.1) = itemTokens .array 0 nodes := by
  have elements : (nodes.attach.filter (fun e => e.1.kind != "comment")).unattach =
      nodes.filter (·.kind != "comment") := by
    rw [List.unattach_filter (g := fun n => n.kind != "comment"), List.unattach_attach]
    exact fun _ _ => rfl
  rw [itemTokens, ← elements]
  apply List.ext_getElem?
  intro i
  rw [List.getElem?_mapIdx, List.getElem?_mapIdx, List.unattach, List.getElem?_map,
    Option.map_map]
  simp only [Nat.zero_add]
  rfl

theorem valueToken_container {c : Container} {n : Node} (kind : n.kind = c.word) (name : String) :
    valueToken name n =
      { name, span := some n.span, kind := c.kind, children := itemTokens c 0 n.named } := by
  rw [valueToken]
  cases c with
  | object =>
    simp only [kind, Container.word, kindOf, Container.kind]
    congr 1
    exact filterMap_attach_member n.named
  | array =>
    simp only [kind, Container.word, kindOf, Container.kind]
    congr 1
    exact mapIdx_attach_element n.named

theorem valueToken_scalar {n : Node} (notObject : n.kind ≠ "object") (notArray : n.kind ≠ "array")
    (name : String) :
    valueToken name n = { name, span := some n.span, kind := .value, value := some n.text } := by
  rw [valueToken]
  simp [kindOf]

theorem valueToken_inRole (n : Node) (role name : String) :
    valueToken name (n.inRole role) = valueToken name n := by
  by_cases object : n.kind = "object"
  · exact (valueToken_container (n := n.inRole role) (c := .object) object name).trans
      (valueToken_container (c := .object) object name).symm
  by_cases array : n.kind = "array"
  · exact (valueToken_container (n := n.inRole role) (c := .array) array name).trans
      (valueToken_container (c := .array) array name).symm
  exact (valueToken_scalar (n := n.inRole role) object array name).trans
    (valueToken_scalar object array name).symm

theorem memberToken?_pair {pair key colon value : Node} (kind : pair.kind = "pair")
    (children : pair.children = [key.inRole "key", colon, value.inRole "value"])
    (free : colon.field = none) :
    memberToken? pair = some (valueToken (Text.unquote key.text) value) := by
  have keyOf : pair.child? "key" = some (key.inRole "key") := by
    simp [Node.child?, children, Node.inRole]
  have valueOf : pair.child? "value" = some (value.inRole "value") := by
    simp [Node.child?, children, Node.inRole, free]
  rw [memberToken?, if_pos kind, keyOf, valueOf, Option.map_some, Option.map_some,
    valueToken_inRole]
  rfl

variable {before rest : List Char} {gap : Gap} {c : Container}

/-! Values -/

def bytePoint (cs : List Char) : Point := (Place.behind cs).point

structure IsValue (v : Source) (before : List Char) (n : Node) : Prop where
  named : n.isNamed = true
  proper : n.isExtra = false
  free : n.field = none
  kind : n.kind ≠ "comment"
  stop : n.stop = .behind (before ++ v.chars)
  token : ∀ name, valueToken name n = v.mirror bytePoint name before

structure IsItem (label : c.Label) (v : Source) (before : List Char) (n : Node) : Prop where
  named : n.isNamed = true
  tokens : ∀ index others, itemTokens c index (n :: others) =
    v.mirror bytePoint (c.labelName label index) (before ++ c.labelChars label) ::
      itemTokens c (index + 1) others

def ValueRead (v : Source) : Prop :=
  ∀ (before : List Char) (gap : Gap) (rest : List Char), Scan.StopsAt continues rest →
    ∃ n, IsValue v (before ++ gap.chars) n ∧
      grammar.Reads (64 * v.chars.length) (.call .value)
        (.between before (gap.chars ++ (v.chars ++ rest))) [n]
        (.between (before ++ gap.chars ++ v.chars) rest)

theorem Scalar.chars_ne_nil (s : Scalar) : s.chars ≠ [] := by
  cases s with
  | string letters => simp [Scalar.chars, quoted]
  | number n =>
    obtain ⟨first, more, chars, -⟩ := n.chars_cons
    simp [Scalar.chars, chars]
  | truth value => cases value <;> decide
  | null => decide

theorem Source.chars_ne_nil (v : Source) : v.chars ≠ [] := by
  cases v with
  | scalar s => exact s.chars_ne_nil
  | empty c gap => exact List.cons_ne_nil _ _
  | filled c items => exact List.cons_ne_nil _ _

theorem scalar_read {s : Scalar} (plain : s.hasPlus = false) : ValueRead (.scalar s) := by
  intro before gap rest stops
  obtain ⟨kind, listed, reads⟩ := reads_scalar plain gap stops before
  have positive : 1 ≤ s.chars.length := List.length_pos_iff.2 s.chars_ne_nil
  refine ⟨_, ?_, reads.mono (by rw [Source.chars]; omega)⟩
  have other : ∀ k ∈ ["string", "number", "true", "false", "null"],
      k ≠ "object" ∧ k ≠ "array" ∧ k ≠ "comment" := by decide
  obtain ⟨notObject, notArray, notComment⟩ := other kind listed
  exact {
    named := rfl
    proper := rfl
    free := rfl
    kind := notComment
    stop := rfl
    token := fun name => by
      rw [valueToken_scalar notObject notArray, Node.text, Node.chars_around]
      rfl }

/-! Values between commas -/

namespace Container

theorem closing_continues (c : Container) : continues c.closing = false := by cases c <;> decide

theorem closing_opensGap (c : Container) : opensGap c.closing = false := by cases c <;> decide

theorem word_ne_comment (c : Container) : c.word ≠ "comment" := by cases c <;> decide

theorem closing_ne_comma (c : Container) : c.closing ≠ ',' := by cases c <;> decide

end Container

private theorem element_read {v : Source} (value : ValueRead v)
    (label : Container.array.Label) (before : List Char) (gap : Gap)
    (stops : Scan.StopsAt continues rest) :
    ∃ n, IsItem label v (before ++ gap.chars) n ∧
      grammar.Reads (64 * v.chars.length) (.call .value)
        (.between before (gap.chars ++ (v.chars ++ rest))) [n]
        (.between (before ++ gap.chars ++ v.chars) rest) := by
  obtain ⟨n, isValue, reads⟩ := value before gap rest stops
  refine ⟨n, ⟨isValue.named, fun index others => ?_⟩, reads⟩
  rw [itemTokens_element isValue.kind, isValue.token, Container.labelChars, List.append_nil]
  rfl

private theorem pair_read {v : Source} (value : ValueRead v)
    (label : Container.object.Label) (before : List Char) (gap : Gap)
    (stops : Scan.StopsAt continues rest) :
    ∃ n, IsItem label v (before ++ gap.chars) n ∧
      grammar.Reads (64 * v.chars.length + 8) pair
        (.between before (gap.chars ++ (Container.object.labelChars label ++ (v.chars ++ rest))))
        [n]
        (.between (before ++ gap.chars ++ (Container.object.labelChars label ++ v.chars))
          rest) := by
  obtain ⟨letters, behind, front⟩ : Key := label
  let start := before ++ gap.chars
  have keySkips : grammar.Skips gap.chars (quoted letters ++ (behind.chars ++ (":".toList ++
      (front.chars ++ (v.chars ++ rest))))) := gap.skips (Scan.stopsAt_cons (by decide) _)
  have colonSkips : grammar.Skips behind.chars (":".toList ++ (front.chars ++ (v.chars ++ rest))) :=
    behind.skips (Scan.stopsAt_cons (by decide) _)
  obtain ⟨n, isValue, value⟩ := value (start ++ quoted letters ++ behind.chars ++ ":".toList) front
    rest stops
  have key := (keySkips.reads_leaf "string" (takes_quoted letters _) before).field "key"
  have value := value.field "value"
  rw [Grammar.assignField_singleton "key" rfl rfl] at key
  rw [Grammar.assignField_singleton "value" isValue.proper isValue.free] at value
  have colon := colonSkips.reads_sign (start ++ quoted letters)
  have chars : Container.object.labelChars ⟨letters, behind, front⟩ =
    quoted letters ++ (behind.chars ++ (":".toList ++ front.chars)) := rfl
  have source : quoted letters ++ (behind.chars ++ (":".toList ++ (front.chars ++
      (v.chars ++ rest)))) =
      Container.object.labelChars ⟨letters, behind, front⟩ ++ (v.chars ++ rest) := by
    simp [chars]
  have stop : start ++ quoted letters ++ behind.chars ++ ":".toList ++ front.chars ++ v.chars =
      start ++ (Container.object.labelChars ⟨letters, behind, front⟩ ++ v.chars) := by
    simp [chars]
  have whole := Grammar.Reads.enclosed "pair" key colon value rfl rfl
    (source.trans (List.append_assoc ..).symm) (isValue.stop.trans (by rw [stop]))
  rw [source, stop] at whole
  refine ⟨_, ⟨rfl, fun index others => ?_⟩, whole.mono (by omega)⟩
  have token := isValue.token (String.ofList (inner letters))
  rw [itemTokens_member (memberToken?_pair rfl rfl rfl), Node.text, Node.chars_around,
    unquote_quoted, token]
  simp [chars, start, Container.labelName]

theorem item_read {v : Source} (value : ValueRead v) (label : c.Label) (before : List Char)
    (gap : Gap) (stops : Scan.StopsAt continues rest) :
    ∃ n, IsItem label v (before ++ gap.chars) n ∧
      grammar.Reads (64 * ((c.labelChars label).length + v.chars.length)) c.element
        (.between before (gap.chars ++ (c.labelChars label ++ (v.chars ++ rest)))) [n]
        (.between (before ++ gap.chars ++ (c.labelChars label ++ v.chars)) rest) := by
  cases c with
  | array =>
    obtain ⟨n, isItem, reads⟩ := element_read value label before gap stops
    exact ⟨n, isItem, by simpa [Container.labelChars, Container.element] using reads⟩
  | object =>
    obtain ⟨n, isItem, reads⟩ := pair_read value label before gap stops
    have positive : 1 ≤ (Container.object.labelChars label).length :=
      List.length_pos_iff.2 (List.cons_ne_nil _ _)
    exact ⟨n, isItem, reads.mono (by omega)⟩

/-- The values of a container are read up to the blanks in front of its closing bracket: the
first one, and the others each behind a comma. The two parts stand apart because behind a comma
the first value comes under the repetition, and at the opening bracket it does not. -/
def ItemsRead (items : Items c) : Prop :=
  ∀ before rest : List Char, ∃ n others c₁,
    before.length ≤ c₁.place.offset ∧
    grammar.Reads (64 * items.chars.length) c.element
      (.between before (items.chars ++ c.closing :: rest)) [n] c₁ ∧
    grammar.Reads (64 * items.chars.length + 1) (.many (.seq (.sign ",") c.element)) c₁ others
      (.between (before ++ items.body) (items.behind.chars ++ c.closing :: rest)) ∧
    ∀ index, itemTokens c index ((n :: others).filter (·.isNamed)) =
      items.mirror bytePoint before index

theorem last_read {v : Source} (value : ValueRead v) (gap : Gap) (label : c.Label)
    (behind : Gap) : ItemsRead (.last gap label v behind) := by
  intro before rest
  have stops := behind.stopsAt_continues (Scan.stopsAt_cons c.closing_continues rest)
  obtain ⟨n, isItem, reads⟩ := item_read value label before gap stops
  have skips : grammar.Skips behind.chars (c.closing :: rest) :=
    behind.skips (Scan.stopsAt_cons c.closing_opensGap rest)
  have bracket : ",".toList.head? ≠ (c.closing :: rest).head? :=
    fun same => c.closing_ne_comma (Option.some.inj same).symm
  have ends := skips.fails_sign bracket (by decide)
    (before ++ (gap.chars ++ (c.labelChars label ++ v.chars)))
  have source : (Items.last gap label v behind).chars ++ c.closing :: rest =
      gap.chars ++ (c.labelChars label ++ (v.chars ++ (behind.chars ++ c.closing :: rest))) := by
    simp [Items.chars]
  have shorter : (c.labelChars label).length + v.chars.length ≤
      (Items.last gap label v behind).chars.length := by
    simp only [Items.chars, List.length_append]
    omega
  rw [List.append_assoc before] at reads
  rw [source]
  refine ⟨n, [], _, ?_, reads.mono (by omega), .mono (.many_nil (.seq ends)) (by omega),
    fun index => ?_⟩
  · simp [Cursor.between]
  · rw [List.filter_cons_of_pos isItem.named, List.filter_nil, isItem.tokens, itemTokens_nil,
      Items.mirror, List.append_assoc]

theorem more_read {v : Source} (value : ValueRead v) (gap : Gap) (label : c.Label)
    (behind : Gap) {others : Items c} (read : ItemsRead others) :
    ItemsRead (.more gap label v behind others) := by
  intro before rest
  have comma : continues ',' = false := by decide
  have stops := behind.stopsAt_continues
    (Scan.stopsAt_cons comma (others.chars ++ c.closing :: rest))
  obtain ⟨n, isItem, reads⟩ := item_read value label before gap stops
  have skips : grammar.Skips behind.chars (",".toList ++ (others.chars ++ c.closing :: rest)) :=
    behind.skips (Scan.stopsAt_cons (by decide) _)
  let here := before ++ (gap.chars ++ (c.labelChars label ++ v.chars))
  let next := here ++ behind.chars ++ ",".toList
  obtain ⟨first, further, c₁, later, element, more, tokens⟩ := read next rest
  have moves : c₁.place.offset ≠ (Cursor.between here
      (behind.chars ++ (",".toList ++ (others.chars ++ c.closing :: rest)))).place.offset := by
    have comma : next.length = here.length + behind.chars.length + 1 := by
      simp [next, Nat.add_assoc]
    simp only [Cursor.between, Place.behind_offset]
    omega
  have all := Grammar.Reads.many_cons ((skips.reads_sign here).seq element) moves more
  have source : (Items.more gap label v behind others).chars ++ c.closing :: rest =
      gap.chars ++ (c.labelChars label ++ (v.chars ++
        (behind.chars ++ ',' :: (others.chars ++ c.closing :: rest)))) := by
    simp [Items.chars]
  have body : before ++ (Items.more gap label v behind others).body = next ++ others.body := by
    simp [Items.body, next, here]
  have length : (Items.more gap label v behind others).chars.length = gap.chars.length +
      ((c.labelChars label).length + (v.chars.length + (behind.chars.length +
        (others.chars.length + 1)))) := by
    simp only [Items.chars, List.length_append, List.length_cons]
  rw [List.append_assoc before] at reads
  rw [source, body]
  refine ⟨n, _, _, ?_, reads.mono (by omega), all.mono (by omega), fun index => ?_⟩
  · simp [Cursor.between]
  · simp only [List.cons_append, List.nil_append]
    rw [List.filter_cons_of_pos isItem.named, List.filter_cons_of_neg Bool.false_ne_true,
      isItem.tokens, tokens, Items.mirror]
    simp [next, here]

/-! Containers -/

namespace Container

theorem reads_value (c : Container) {n : Nat} {nodes : List Node} {body : List Char} (last : Gap)
    (inside : grammar.Reads n (Rule.commas0 c.element)
      (.between (before ++ gap.chars ++ [c.opening]) (body ++ (last.chars ++ c.closing :: rest)))
      nodes
      (.between (before ++ gap.chars ++ [c.opening] ++ body) (last.chars ++ c.closing :: rest))) :
    ∃ opening closing, opening.isNamed = false ∧ closing.isNamed = false ∧
      grammar.Reads (max n 1 + 11) (.call .value)
        (.between before (gap.chars ++ c.opening :: (body ++ (last.chars ++ c.closing :: rest))))
        [.around c.word true (before ++ gap.chars)
          (c.opening :: (body ++ (last.chars ++ [c.closing]))) rest
          (opening :: (nodes ++ [closing]))]
        (.between (before ++ gap.chars ++ c.opening :: (body ++ (last.chars ++ [c.closing])))
          rest) := by
  have openSkips : grammar.Skips gap.chars
      (c.openSign.toList ++ (body ++ (last.chars ++ c.closing :: rest))) := by
    rw [c.openSign_toList]
    exact gap.skips (Scan.stopsAt_cons (by cases c <;> decide) _)
  have closeSkips : grammar.Skips last.chars (c.closeSign.toList ++ rest) := by
    rw [c.closeSign_toList]
    exact last.skips (Scan.stopsAt_cons c.closing_opensGap _)
  have opens := openSkips.reads_sign before
  have closes := closeSkips.reads_sign (before ++ gap.chars ++ [c.opening] ++ body)
  rw [c.openSign_toList] at opens
  rw [c.closeSign_toList] at closes
  have stop : before ++ gap.chars ++ [c.opening] ++ body ++ last.chars ++ [c.closing] =
      before ++ gap.chars ++ c.opening :: (body ++ (last.chars ++ [c.closing])) := by simp
  have whole := Grammar.Reads.enclosed c.word opens inside closes rfl rfl
    (show _ = c.opening :: (body ++ (last.chars ++ [c.closing])) ++ rest by simp [Node.around])
    (congrArg Place.behind stop)
  rw [stop] at whole
  have taken := Alternative.reads_value (Alternative.bracket_mem c) (List.mem_singleton_self _)
    whole
  exact ⟨_, _, rfl, rfl, taken.mono (by omega)⟩

end Container

theorem isValue_around {v : Source} {start : List Char} {nodes : List Node}
    {opening closing : Node} (openSign : opening.isNamed = false)
    (closeSign : closing.isNamed = false)
    (tokens : ∀ name, v.mirror bytePoint name start = {
      name, span := some (extent bytePoint start v.chars), kind := c.kind
      children := itemTokens c 0 (nodes.filter (·.isNamed)) }) :
    IsValue v start
      (.around c.word true start v.chars rest (opening :: (nodes ++ [closing]))) := by
  exact {
    named := rfl
    proper := rfl
    free := rfl
    kind := c.word_ne_comment
    stop := rfl
    token := fun name => by
      rw [valueToken_container rfl, tokens]
      simp [Node.named, Node.around, openSign, closeSign, Node.span, extent, bytePoint] }

theorem empty_read (c : Container) (gap : Gap) : ValueRead (.empty c gap) := by
  intro before lead rest _
  let start := before ++ lead.chars ++ [c.opening]
  have element : grammar.Fails c.element (.between start (gap.chars ++ c.closing :: rest)) := by
    have stops := Scan.stopsAt_cons c.closing_opensGap rest
    cases c with
    | object =>
      have bracket : ∀ c ∈ Alternative.quote.begins, ('\x7d' :: rest).head? ≠ some c := by
        simp [Alternative.quote]
      have key := Alternative.fails Alternative.quote_mem gap stops bracket start
      exact .node _ (.seq (.field _ key))
    | array => exact value_fails gap stops (Scan.stopsAt_cons (by decide) rest) start
  have inside : grammar.Reads 2 (Rule.commas0 c.element)
      (.between start ([] ++ (gap.chars ++ c.closing :: rest))) []
      (.between (start ++ []) (gap.chars ++ c.closing :: rest)) := by
    rw [List.append_nil]
    exact .alt_right (.seq element) (.done _)
  obtain ⟨opening, closing, openSign, closeSign, reads⟩ := c.reads_value gap inside
  have source : (Source.empty c gap).chars ++ rest =
      c.opening :: ([] ++ (gap.chars ++ c.closing :: rest)) := by simp [Source.chars]
  rw [source]
  refine ⟨_, isValue_around openSign closeSign ?_, reads.mono ?_⟩
  · intro name
    rw [List.filter_nil, itemTokens_nil, Source.mirror]
  · simp [Source.chars]
    omega

theorem filled_read {items : Items c} (read : ItemsRead items) : ValueRead (.filled c items) := by
  intro before lead rest _
  let start := before ++ lead.chars ++ [c.opening]
  obtain ⟨n, others, c₁, -, first, more, tokens⟩ := read start rest
  have chars := items.chars_eq
  have inside : grammar.Reads _ (Rule.commas0 c.element) _ _ _ := .alt_left (first.seq more)
  rw [chars, List.append_assoc] at inside
  obtain ⟨opening, closing, openSign, closeSign, reads⟩ := c.reads_value _ inside
  have whole : (Source.filled c items).chars =
      c.opening :: (items.body ++ (items.behind.chars ++ [c.closing])) := by
    rw [Source.chars, chars, List.append_assoc]
  have source : (Source.filled c items).chars ++ rest =
      c.opening :: (items.body ++ (items.behind.chars ++ c.closing :: rest)) := by simp [whole]
  rw [source]
  rw [← whole] at reads
  refine ⟨_, isValue_around openSign closeSign ?_, reads.mono ?_⟩
  · intro name
    rw [List.singleton_append, tokens, Source.mirror]
  · simp only [whole, List.length_cons, List.length_append]
    omega

-- The induction follows how values are written; each case is one of the lemmas above.

mutual

theorem Source.read : (v : Source) → v.hasPlus = false → ValueRead v
  | .scalar _, plain => scalar_read plain
  | .empty c gap, _ => empty_read c gap
  | .filled _ items, plain => filled_read (items.read plain)

theorem Items.read {c : Container} : (items : Items c) → items.hasPlus = false → ItemsRead items
  | .last gap label value behind, plain => last_read (value.read plain) gap label behind
  | .more gap label value behind others, plain =>
    more_read (value.read (Bool.or_eq_false_iff.1 plain).1) gap label behind
      (others.read (Bool.or_eq_false_iff.1 plain).2)

end

end CodeOutline.Analysis.Json
