import CodeOutline.Analysis.Symbols

/-!
How the declarations of a document stand inside each other, read off its syntax tree. From first
to last they are the flat symbols of the document; what the flat symbols leave out is, for each
of them, which types and namespaces are around it.
-/

set_option autoImplicit false

namespace CodeOutline.Analysis.Symbols

open Syntax

/-! The parts of one node -/

/-- What a node gives by itself, the nodes in it that give symbols, and what it gives behind
them. -/
structure Layout where
  head : Option Symbol := none
  /-- The declaration has no end of its own: it holds for all that follows. -/
  stays : Bool := false
  /-- The type around the inner nodes. -/
  inside : Option String
  inner : List Node := []
  rest : List Symbol := []

def layout (container : Option String) (n : Node) : Layout :=
  match n.kind with
  | "namespace_declaration" | "file_scoped_namespace_declaration" | "namespace_definition" =>
    { head := (n.child? "name").map (fun name => symbolAt .space container name.text name n)
      stays := n.kind == "file_scoped_namespace_declaration"
      inside := container
      inner := bodyOf n }
  | "declaration" =>
    { inside := container
      inner := (n.child? "type").toList.filter
        (fun type => isMemberedType type && (type.child? "body").isSome)
      rest := declarators container n }
  | "type_definition" =>
    match (n.child? "type").filter isMemberedType with
    | none => { inside := container }
    | some type =>
      match (type.child? "name").or (n.child? "declarator") with
      | none => { inside := container }
      | some name =>
        { head := symbolAt .struct container name.text name n
          inside := some name.text
          inner := bodyOf type }
  | kind =>
    match entityKind? kind, n.child? "name" with
    | some entity, some name =>
      { head := symbolAt entity container name.text name n
        inside := some name.text
        inner := bodyOf n }
    | _, _ =>
      if isWrapper kind then { inside := container, inner := n.named }
      else { inside := container, rest := symbolsOf container n }

theorem sizeOf_of_mem_layout {container : Option String} {n c : Node}
    (member : c ∈ (layout container n).inner) : sizeOf c < sizeOf n := by
  unfold layout at member
  split at member
  case h_1 | h_2 | h_3 => exact sizeOf_of_mem_bodyOf member
  case h_4 =>
    obtain ⟨typed, -⟩ := List.mem_filter.1 member
    exact Node.sizeOf_of_child? (Option.mem_toList.1 typed)
  case h_5 =>
    split at member
    · cases member
    next type typed =>
      obtain ⟨child, -⟩ := Option.filter_eq_some_iff.1 typed
      split at member
      · cases member
      · exact Nat.lt_trans (sizeOf_of_mem_bodyOf member) (Node.sizeOf_of_child? child)
  case h_6 =>
    split at member
    · exact sizeOf_of_mem_bodyOf member
    · split at member
      · exact Node.sizeOf_of_mem_named member
      · cases member

theorem symbolsOf_eq_layout (container : Option String) (n : Node) :
    symbolsOf container n =
      (layout container n).head.toList ++
        (layout container n).inner.flatMap (symbolsOf (layout container n).inside) ++
        (layout container n).rest := by
  fun_cases layout container n
  case case1 kind | case2 kind | case3 kind =>
    unfold symbolsOf
    rw [kind]
    cases found : n.child? "name" <;> simp [named, found]
  case case4 kind =>
    unfold symbolsOf
    simp only [kind]
    split
    · next type typed =>
      rw [typed]
      split <;> simp_all
    · next typed => simp [typed]
  case case5 kind untyped =>
    unfold symbolsOf
    simp only [kind]
    split
    · rfl
    · next type typed =>
      have other : isMemberedType type = false := by simpa [typed] using untyped
      simp only [other]
      split <;> rfl
  case case6 kind type typed unnamed =>
    obtain ⟨child, -⟩ := Option.filter_eq_some_iff.1 typed
    unfold symbolsOf
    simp only [kind, Option.orElse_eq_or]
    split
    · rfl
    · next type' child' =>
      cases child.symm.trans child'
      rw [unnamed]
      rfl
  case case7 kind type typed name given =>
    obtain ⟨child, membered⟩ := Option.filter_eq_some_iff.1 typed
    unfold symbolsOf
    simp only [kind]
    split
    · next untyped => simp [child] at untyped
    · next type' child' =>
      cases child.symm.trans child'
      simp [given, membered]
  -- The remaining kinds of `symbolsOf` are neither entities nor wrappers.
  case case8 =>
    unfold symbolsOf
    split <;> simp_all [entityKind?]
  case case9 =>
    unfold symbolsOf
    split <;> simp_all [entityKind?, isWrapper]
  case case10 => simp

/-! Declarations inside of declarations -/

inductive Nest
  | mk (symbol : Symbol) (inner : List Nest)

def leaves (ss : List Symbol) : List Nest := ss.map (.mk · [])

def nest (container : Option String) (n : Node) (after : List Nest) : List Nest :=
  let parts := layout container n
  let inner (after : List Nest) := parts.inner.attach.foldr (fun ⟨c, hc⟩ after =>
    have := sizeOf_of_mem_layout hc
    nest parts.inside c after) after
  match parts.head with
  | none => inner (leaves parts.rest ++ after)
  | some symbol =>
    if parts.stays then [.mk symbol (inner (leaves parts.rest ++ after))]
    else .mk symbol (inner []) :: (leaves parts.rest ++ after)
termination_by sizeOf n

/-- The nodes of a list one in front of the other. -/
def nestAll (container : Option String) (ns : List Node) (after : List Nest) : List Nest :=
  ns.foldr (nest container) after

theorem nest_eq (container : Option String) (n : Node) (after : List Nest) :
    nest container n after =
      let parts := layout container n
      let inner := nestAll parts.inside parts.inner
      match parts.head with
      | none => inner (leaves parts.rest ++ after)
      | some symbol =>
        if parts.stays then [.mk symbol (inner (leaves parts.rest ++ after))]
        else .mk symbol (inner []) :: (leaves parts.rest ++ after) := by
  rw [nest]
  simp only [nestAll, List.foldr_subtype, List.unattach_attach]

mutual

def flat : Nest → List Symbol
  | .mk symbol inner => symbol :: flatAll inner

def flatAll : List Nest → List Symbol
  | [] => []
  | x :: xs => flat x ++ flatAll xs

end

theorem flatAll_leaves_append (ss : List Symbol) (after : List Nest) :
    flatAll (leaves ss ++ after) = ss ++ flatAll after := by
  induction ss with
  | nil => rfl
  | cons s ss ih =>
    have first : leaves (s :: ss) ++ after = .mk s [] :: (leaves ss ++ after) := rfl
    rw [first, flatAll, ih]
    rfl

private theorem flatAll_nestAll {container : Option String} {ns : List Node}
    (each : ∀ c ∈ ns, ∀ after, flatAll (nest container c after) =
      symbolsOf container c ++ flatAll after) (after : List Nest) :
    flatAll (nestAll container ns after) =
      ns.flatMap (symbolsOf container) ++ flatAll after := by
  induction ns with
  | nil => rfl
  | cons n ns ih =>
    rw [List.forall_mem_cons] at each
    have later : flatAll (ns.foldr (nest container) after) =
        ns.flatMap (symbolsOf container) ++ flatAll after := ih each.2
    rw [nestAll, List.foldr_cons, each.1, later, List.flatMap_cons, List.append_assoc]

theorem flatAll_nest (container : Option String) (n : Node) (after : List Nest) :
    flatAll (nest container n after) = symbolsOf container n ++ flatAll after := by
  have inner := flatAll_nestAll (fun c (member : c ∈ (layout container n).inner) =>
    have := sizeOf_of_mem_layout member
    flatAll_nest (layout container n).inside c)
  rw [nest_eq, symbolsOf_eq_layout]
  dsimp only
  split
  · next headless =>
    simp only [headless, inner, flatAll_leaves_append, Option.toList_none, List.nil_append,
      List.append_assoc]
  · next symbol headed =>
    split <;> simp only [headed, flatAll, flat, inner, flatAll_leaves_append, Option.toList_some,
      List.append_assoc, List.append_nil, List.nil_append, List.cons_append]
termination_by sizeOf n

/-! Symbols with what is around them -/

structure Placed where
  symbol : Symbol
  /-- The declarations around it, from the innermost to the outermost. -/
  outer : List Symbol

mutual

def placed (outer : List Symbol) : Nest → List Placed
  | .mk symbol inner => ⟨symbol, outer⟩ :: placedAll (symbol :: outer) inner

def placedAll (outer : List Symbol) : List Nest → List Placed
  | [] => []
  | x :: xs => placed outer x ++ placedAll outer xs

end

mutual

theorem symbols_placed (outer : List Symbol) (x : Nest) :
    (placed outer x).map (·.symbol) = flat x := by
  cases x with
  | mk symbol inner => rw [placed, List.map_cons, symbols_placedAll, flat]

theorem symbols_placedAll (outer : List Symbol) (xs : List Nest) :
    (placedAll outer xs).map (·.symbol) = flatAll xs := by
  cases xs with
  | nil => rfl
  | cons x xs => rw [placedAll, List.map_append, symbols_placed, symbols_placedAll, flatAll]

end

inductive Follows : List Symbol → List Placed → Prop
  | nil {known : List Symbol} : Follows known []
  | cons {known : List Symbol} {p : Placed} {ps : List Placed} :
    (∀ s ∈ p.outer, s ∈ known) → Follows (p.symbol :: known) ps → Follows known (p :: ps)

theorem Follows.mono {known more : List Symbol} {ps : List Placed} (follows : Follows known ps)
    (bigger : known ⊆ more) : Follows more ps := by
  induction follows generalizing more with
  | nil => exact .nil
  | cons around _ ih =>
    exact .cons (fun s there => bigger (around s there)) (ih (List.cons_subset_cons _ bigger))

theorem Follows.append {known : List Symbol} {ps qs : List Placed} (first : Follows known ps)
    (second : Follows known qs) : Follows known (ps ++ qs) := by
  induction first with
  | nil => exact second
  | cons around _ ih =>
    exact .cons around (ih (second.mono (List.subset_cons_self _ _)))

theorem Follows.outer_before {known : List Symbol} {before after : List Placed} {p : Placed}
    (follows : Follows known (before ++ p :: after)) :
    ∀ s ∈ p.outer, s ∈ known ∨ s ∈ before.map (·.symbol) := by
  induction before generalizing known with
  | nil =>
    intro s there
    cases follows with
    | cons around _ => exact .inl (around s there)
  | cons q before ih =>
    intro s there
    cases follows with
    | cons _ later =>
      rcases ih later s there with old | new
      · rcases List.mem_cons.1 old with rfl | old
        · exact .inr (List.mem_cons_self)
        · exact .inl old
      · exact .inr (List.mem_cons_of_mem _ new)

mutual

theorem follows_placed (outer : List Symbol) (x : Nest) : Follows outer (placed outer x) := by
  cases x with
  | mk symbol inner =>
    rw [placed]
    exact .cons (fun _ there => there) (follows_placedAll (symbol :: outer) inner)

theorem follows_placedAll (outer : List Symbol) (xs : List Nest) :
    Follows outer (placedAll outer xs) := by
  cases xs with
  | nil => exact .nil
  | cons x xs =>
    rw [placedAll]
    exact (follows_placed outer x).append (follows_placedAll outer xs)

end

/-- The symbols of a document, each with what is around it. -/
def placed? (language text : String) : Option (List Placed) :=
  (root? language text).map (fun root => placedAll [] (nestAll none root.named []))

theorem symbols_placed? (language text : String) :
    (placed? language text).map (·.map (·.symbol)) = symbols? language text := by
  rw [placed?, symbols?, Option.map_map]
  congr 1
  funext root
  have listed := flatAll_nestAll (fun c (_ : c ∈ root.named) => flatAll_nest none c) []
  rw [Function.comp_apply, symbols_placedAll, listed, flatAll, List.append_nil]

theorem outer_before {language text : String} {before after : List Placed} {p : Placed}
    (read : placed? language text = some (before ++ p :: after)) :
    ∀ s ∈ p.outer, s ∈ before.map (·.symbol) := by
  obtain ⟨root, -, listed⟩ := Option.map_eq_some_iff.1 read
  have follows := follows_placedAll [] (nestAll none root.named [])
  intro s there
  rw [listed] at follows
  rcases follows.outer_before s there with known | listed
  · cases known
  · exact listed

end CodeOutline.Analysis.Symbols
