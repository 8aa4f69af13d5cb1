import CodeOutline.Name.Qualified
import CodeOutline.Proofs.Text.Occurrence
import CodeOutline.Proofs.Text.Trimming

/-!
How written names come apart: at a lone colon, at the last separator, and what blanks around the
parts do. A qualified name gives back the name and the namespace that it was made of, and a target
made of identifiers gives back its identifiers. The simple name and the
namespace stand in the name as they are, so that neither has a character that the name has not.
-/

set_option autoImplicit false

namespace CodeOutline

namespace Name

/-! ## Where the parts come from -/

section Parts

open Text

theorem append_of_cutLoneColon? {afterColon : Bool} {cs before after : List Char}
    (cut : cutLoneColon? afterColon cs = some (before, after)) : before ++ ':' :: after = cs := by
  fun_induction cutLoneColon? afterColon cs generalizing before with
  | case1 => cases cut
  | case2 =>
    obtain ⟨rfl, rfl⟩ := Prod.mk.inj (Option.some.inj cut)
    rfl
  | case3 | case4 =>
    next ih =>
    obtain ⟨⟨front, back⟩, later, same⟩ := Option.map_eq_some_iff.1 cut
    obtain ⟨rfl, rfl⟩ := Prod.mk.inj same
    rw [List.cons_append, ih later]

theorem append_of_cutLast? {needle cs before after : List Char}
    (cut : cutLast? needle cs = some (before, after)) : before ++ needle ++ after = cs := by
  obtain ⟨⟨back, front⟩, found, same⟩ := Option.map_eq_some_iff.1 cut
  obtain ⟨rfl, rfl⟩ := Prod.mk.inj same
  have whole := congrArg List.reverse (append_of_cutFirst? found)
  simpa using whole

theorem nonempty?_eq_some {cs : List Char} {s : String} (filled : nonempty? cs = some s) :
    s.toList = cs := by
  unfold nonempty? at filled
  split at filled
  · cases filled
  · rw [← Option.some.inj filled, String.toList_ofList]

theorem split_inside (name separator : String) :
    (split name separator).1.toList <:+: name.toList ∧
      ∀ ns ∈ (split name separator).2, ns.toList <:+: name.toList := by
  have whole : name.toList <:+: name.toList ∧ ∀ ns ∈ (none : Option String),
      ns.toList <:+: name.toList := ⟨List.infix_rfl, nofun⟩
  unfold split
  split
  · next before after cut =>
    have parts := append_of_cutLoneColon? cut
    refine ⟨?_, fun ns there => ?_⟩
    · rw [String.toList_ofList, ← parts]
      exact (trimChars_inside before).trans (List.prefix_append _ _).isInfix
    · rw [nonempty?_eq_some there, ← parts]
      exact (trimChars_inside after).trans
        ((List.suffix_cons _ _).trans (List.suffix_append _ _)).isInfix
  · split
    · exact whole
    · split
      · next before after cut =>
        have parts := append_of_cutLast? cut
        refine ⟨?_, fun ns there => ?_⟩
        · rw [String.toList_ofList, ← parts]
          exact (List.suffix_append _ _).isInfix
        · rw [nonempty?_eq_some there, ← parts, List.append_assoc]
          exact (List.prefix_append _ _).isInfix
      · exact whole

theorem splitTarget_inside (target separator : String) (fallback : Option String) :
    (splitTarget target separator fallback).1.toList <:+: target.toList ∧
      ∀ ns ∈ (splitTarget target separator fallback).2,
        ns.toList <:+: target.toList ∨ ∃ other ∈ fallback, ns.toList <:+: other.toList := by
  have trimmed : (trim target).toList <:+: target.toList := by
    rw [trim, String.toList_ofList]
    exact trimChars_inside target.toList
  have parts := split_inside (trim target) separator
  simp only [splitTarget, Option.mem_def]
  refine ⟨parts.1.trans trimmed, fun ns there => ?_⟩
  obtain ⟨given, told, kept⟩ := Option.bind_eq_some_iff.1 there
  have inside : ns.toList <:+: given.toList := by
    rw [nonempty?_eq_some kept]
    exact trimChars_inside given.toList
  cases own : (split (trim target) separator).2 with
  | some space =>
    rw [own] at told
    obtain rfl := Option.some.inj told
    exact .inl (inside.trans ((parts.2 space own).trans trimmed))
  | none =>
    rw [own] at told
    exact .inr ⟨given, told, inside⟩

end Parts

open Text

variable {xs ys : List Char}

theorem cutLoneColon?_of_not_mem (absent : ':' ∉ xs) (afterColon : Bool) :
    cutLoneColon? afterColon xs = none := by
  induction xs generalizing afterColon with
  | nil => rfl
  | cons c xs ih =>
    rw [List.mem_cons, not_or] at absent
    rw [cutLoneColon?]
    · rw [ih absent.2, Option.map_none]
    · rintro rfl
      exact absent.1 rfl

theorem cutLoneColon?_cons (afterColon : Bool) (c : Char) (rest : List Char) :
    cutLoneColon? afterColon (c :: rest) =
      if c = ':' ∧ afterColon = false ∧ rest.head? ≠ some ':' then some ([], rest)
      else (cutLoneColon? (c == ':') rest).map (fun cut => (c :: cut.1, cut.2)) := by
  by_cases colon : c = ':'
  · subst colon
    cases rest with
    | nil => cases afterColon <;> rfl
    | cons d rest =>
      by_cases next : d = ':'
      · subst next
        rw [cutLoneColon?]
        simp
      · rw [cutLoneColon?]
        · cases afterColon <;> simp [next]
        · rintro tail same
          exact next (List.cons.inj same).1
  · have plain : (c == ':') = false := by simpa using colon
    rw [cutLoneColon?, if_neg (fun alone => colon alone.1), plain]
    exact colon

/-- Every colon has another one at its side. -/
def PairsColons (cs : List Char) : Prop :=
  ∀ before after, cs = before ++ ':' :: after →
    before.getLast? = some ':' ∨ after.head? = some ':'

theorem PairsColons.of_not_mem (absent : ':' ∉ xs) : PairsColons xs := by
  rintro before after rfl
  exact absurd (by simp) absent

theorem PairsColons.append (paired : PairsColons xs) (absent : ':' ∉ ys) :
    PairsColons (xs ++ ys) := by
  intro before after whole
  rcases List.append_eq_append_iff.1 whole with ⟨more, -, behind⟩ | ⟨more, inside, behind⟩
  · exact absurd (by simp [behind]) absent
  · cases more with
    | nil =>
      rw [List.nil_append] at behind
      exact absurd (by simp [← behind]) absent
    | cons d more =>
      obtain ⟨rfl, rest⟩ := List.cons.inj behind
      refine (paired before more inside).imp_right fun next => ?_
      rw [rest, List.append_eq, List.head?_append, next, Option.some_or]

private theorem cutLoneColon?_behind (before rest : List Char) :
    cutLoneColon? (before.getLast? == some ':') rest = none ↔
      ∀ xs ys, rest = xs ++ ':' :: ys →
        (before ++ xs).getLast? = some ':' ∨ ys.head? = some ':' := by
  induction rest generalizing before with
  | nil => simp [cutLoneColon?]
  | cons c rest ih =>
    have deeper := ih (before ++ [c])
    rw [List.getLast?_concat, Option.some_beq_some] at deeper
    by_cases alone : c = ':' ∧ (before.getLast? == some ':') = false ∧ rest.head? ≠ some ':'
    · rw [cutLoneColon?_cons, if_pos alone]
      obtain ⟨rfl, first, last⟩ := alone
      refine iff_of_false (Option.some_ne_none _) fun paired => ?_
      rcases paired [] rest rfl with left | right
      · rw [List.append_nil] at left
        simp [left] at first
      · exact last right
    · rw [cutLoneColon?_cons, if_neg alone, Option.map_eq_none_iff, deeper]
      constructor
      · rintro paired (_ | ⟨d, xs⟩) ys whole
        · obtain ⟨rfl, rfl⟩ := List.cons.inj whole
          rw [List.append_nil]
          by_cases last : rest.head? = some ':'
          · exact .inr last
          · exact .inl (by simpa [last] using alone)
        · obtain ⟨rfl, rfl⟩ := List.cons.inj whole
          simpa using paired xs ys rfl
      · rintro paired xs ys rfl
        simpa using paired (c :: xs) ys rfl

theorem cutLoneColon?_eq_none_iff (cs : List Char) :
    cutLoneColon? false cs = none ↔ PairsColons cs :=
  cutLoneColon?_behind [] cs

instance : DecidablePred PairsColons := fun cs =>
  decidable_of_iff _ (cutLoneColon?_eq_none_iff cs)

theorem cutLoneColon?_append (absent : ':' ∉ xs) (apart : ys.head? ≠ some ':') :
    cutLoneColon? false (xs ++ ':' :: ys) = some (xs, ys) := by
  induction xs with
  | nil =>
    rw [List.nil_append, cutLoneColon?]
    · rfl
    · rintro tail rfl
      exact apart rfl
  | cons c xs ih =>
    rw [List.mem_cons, not_or] at absent
    rw [List.cons_append, cutLoneColon?]
    · rw [ih absent.2, Option.map_some]
    · rintro rfl
      exact absent.1 rfl

theorem split_colon {s : String} (whole : s.toList = xs ++ ':' :: ys) (absent : ':' ∉ xs)
    (apart : ys.head? ≠ some ':') (separator : String) :
    split s separator = (String.ofList (trimChars xs), nonempty? (trimChars ys)) := by
  rw [split, whole, cutLoneColon?_append absent apart]

variable {name ns separator : String} {s : Char} (one : separator.toList = [s])

theorem split_marked {mark : String} {l r : List Char} (whole : mark.toList = l ++ ':' :: r)
    (left : ∀ c ∈ l, isBlank c = true) (right : ∀ c ∈ r, isBlank c = true)
    (absent : ':' ∉ name.toList) (apart : (r ++ ns.toList).head? ≠ some ':') (filled : ns ≠ "")
    (name_trim : trim name = name) (ns_trim : trim ns = ns) (separator : String) :
    split (name ++ mark ++ ns) separator = (name, some ns) := by
  have chars : (name ++ mark ++ ns).toList = name.toList ++ l ++ ':' :: (r ++ ns.toList) := by
    simp [whole]
  have clear : ':' ∉ name.toList ++ l := by
    rw [List.mem_append, not_or]
    exact ⟨absent, fun colon => absurd (left ':' colon) (by decide)⟩
  rw [split_colon chars clear apart, trimChars_append_blanks _ left,
    blanks_append_trimChars right, trimChars_of_trim name_trim, trimChars_of_trim ns_trim]
  simp [nonempty?, filled]

theorem split_suffix (absent : ':' ∉ name.toList) (filled : ns ≠ "") (name_trim : trim name = name)
    (ns_trim : trim ns = ns) (separator : String) :
    split (name ++ ": " ++ ns) separator = (name, some ns) := by
  refine split_marked (l := []) (r := [' ']) rfl ?_ ?_ absent (by simp) filled name_trim ns_trim _
  · exact List.forall_mem_nil _
  · exact List.forall_mem_singleton.2 (by decide)

include one

theorem split_of_plain (outside : s ∉ name.toList) (colon : ':' ∉ name.toList) :
    split name separator = (name, none) := by
  rw [split, cutLoneColon?_of_not_mem colon, one, cutLast?_of_not_mem outside]
  simp

theorem split_joined (outside : s ∉ name.toList) (apart : s ≠ ':') (colon : ':' ∉ name.toList)
    (paired : PairsColons ns.toList) (filled : ns ≠ "") :
    split (ns ++ separator ++ name) separator = (name, some ns) := by
  have whole : (ns ++ separator ++ name).toList = ns.toList ++ s :: name.toList := by
    simp [one]
  have none : cutLoneColon? false (ns.toList ++ s :: name.toList) = .none :=
    (cutLoneColon?_eq_none_iff _).2 (paired.append (by simp [colon, apart.symm]))
  have used : separator ≠ "" := by
    rintro rfl
    cases one
  rw [split, whole, none, one, cutLast?_append _ outside]
  simp [nonempty?, filled, used]

theorem split_qualify {space : Option String} (outside : s ∉ name.toList) (apart : s ≠ ':')
    (colon : ':' ∉ name.toList) (proper : ∀ ns ∈ space, ns ≠ "" ∧ PairsColons ns.toList)
    {position : NamespacePosition}
    (trimmed : position = .suffix → trim name = name ∧ ∀ ns ∈ space, trim ns = ns) :
    split (qualify name space separator position) separator =
      (name, if position = .none then none else space) := by
  have plain : split name separator = (name, none) := split_of_plain one outside colon
  cases space with
  | none => cases position <;> exact plain
  | some ns =>
    obtain ⟨filled, paired⟩ := proper ns rfl
    have there : ns.isEmpty = false := by simpa using filled
    cases position with
    | full =>
      simp only [qualify, there]
      exact split_joined one outside apart colon paired filled
    | suffix =>
      obtain ⟨name_trim, ns_trim⟩ := trimmed rfl
      simp only [qualify, there]
      exact split_suffix colon filled name_trim (ns_trim ns rfl) separator
    | none => exact plain

omit one

/-! Names that are qualified and read again -/

/-- A name that no mark of a written form can be mistaken for a part of. -/
structure IsSimple (separator name : String) : Prop where
  trimmed : trim name = name
  outside : ∀ c ∈ separator.toList, c ∉ name.toList
  noColon : ':' ∉ name.toList

/-- A namespace that can be written: its colons are those of scope operators. -/
structure IsSpace (ns : String) : Prop where
  filled : ns ≠ ""
  trimmed : trim ns = ns
  paired : PairsColons ns.toList

section Qualified

variable {space : Option String} (simple : IsSimple separator name)

include one simple

theorem IsSimple.split_self : split name separator = (name, none) :=
  split_of_plain one (simple.outside s (by simp [one])) simple.noColon

theorem IsSimple.split_qualify (other : s ≠ ':') (proper : ∀ ns ∈ space, IsSpace ns)
    (position : NamespacePosition) :
    split (qualify name space separator position) separator =
      (name, if position = .none then none else space) :=
  Name.split_qualify one (simple.outside s (by simp [one])) other simple.noColon
    (fun ns member => ⟨(proper ns member).filled, (proper ns member).paired⟩)
    (fun _ => ⟨simple.trimmed, fun ns member => (proper ns member).trimmed⟩)

/-- A namespace that is there comes back from both forms that hold it, and no form makes one up.
So no two names with their namespaces are written alike, be it in one form or in two. -/
theorem qualified_reads_back (other : s ≠ ':') :
    (∀ ns, IsSpace ns →
      split (qualify name (some ns) separator .full) separator = (name, some ns) ∧
        split (qualify name (some ns) separator .suffix) separator = (name, some ns) ∧
        split (qualify name (some ns) separator .none) separator = (name, none)) ∧
      (∀ position, ∀ space ∈ [none, some ""],
        split (qualify name space separator position) separator = (name, none)) ∧
      ∀ (name' : String) (space space' : Option String), IsSimple separator name' →
        (∀ ns ∈ space, IsSpace ns) → (∀ ns ∈ space', IsSpace ns) →
        ∀ p ∈ [NamespacePosition.full, .suffix], ∀ q ∈ [NamespacePosition.full, .suffix],
          qualify name space separator p = qualify name' space' separator q →
            name = name' ∧ space = space' := by
  refine ⟨?filled, ?bare, ?apart⟩
  case filled =>
    intro ns proper
    have proper : ∀ ns' ∈ some ns, IsSpace ns' := by simpa using proper
    have reads := simple.split_qualify one other proper
    refine ⟨?_, ?_, ?_⟩
    · rw [reads, if_neg (by decide)]
    · rw [reads, if_neg (by decide)]
    · rw [reads, if_pos rfl]
  case bare =>
    intro position space blank
    have same : qualify name space separator position = name := by
      simp only [List.mem_cons, List.not_mem_nil, or_false] at blank
      rcases blank with rfl | rfl
      · cases position <;> rfl
      · cases position <;> rfl
    rw [same, simple.split_self one]
  case apart =>
    intro name' space space' simple' proper proper' p shown q shown' same
    have left := simple.split_qualify one other proper p
    have right := simple'.split_qualify one other proper' q
    have tells : ∀ p ∈ [NamespacePosition.full, .suffix], p ≠ .none := by decide
    rw [if_neg (tells p shown)] at left
    rw [if_neg (tells q shown'), ← same, left, Prod.mk.injEq] at right
    exact right

end Qualified

theorem qualified_reads_back_scoped :
    split (qualify "Foo" (some "a::b") "." .full) "." = ("Foo", some "a::b") ∧
      split (qualify "Foo" (some "a::b") "." .suffix) "." = ("Foo", some "a::b") := by
  have simple : IsSimple "." "Foo" := ⟨by decide, by simp, by decide⟩
  have proper : IsSpace "a::b" := ⟨by decide, by decide, by decide⟩
  obtain ⟨full, suffix, -⟩ := (qualified_reads_back rfl simple (by decide)).1 "a::b" proper
  exact ⟨full, suffix⟩

/-! Targets -/

/-- ASCII letters, digits and underscores, no digit first. -/
def IsIdentifier (s : String) : Prop :=
  ∃ c cs, s.toList = c :: cs ∧ (c.isAlpha ∨ c = '_') ∧ ∀ d ∈ cs, d.isAlphanum ∨ d = '_'

/-- What stands between a name and the namespace behind it. -/
def colons : List String := [":", ": ", " : "]

/-- An identifier, alone or with an identifier as its namespace in one of the written forms. -/
def IsTarget (separator target : String) : Prop :=
  ∃ name, IsIdentifier name ∧ (target = name ∨ ∃ ns, IsIdentifier ns ∧
    (target = ns ++ separator ++ name ∨ ∃ colon ∈ colons, target = name ++ colon ++ ns))

namespace IsIdentifier

theorem all (identifier : IsIdentifier name) : ∀ c ∈ name.toList, c.isAlphanum ∨ c = '_' := by
  obtain ⟨c, cs, whole, first, others⟩ := identifier
  rw [whole, List.forall_mem_cons]
  refine ⟨first.imp_left fun letter => ?_, others⟩
  simp [Char.isAlphanum, letter]

theorem ne_empty (identifier : IsIdentifier name) : name ≠ "" := by
  obtain ⟨c, cs, whole, -⟩ := identifier
  rintro rfl
  cases whole

private theorem not_alphanum {c : Char} (blank : isBlank c = true) : c.isAlphanum = false := by
  simp only [isBlank, Bool.or_eq_true, Bool.and_eq_true, decide_eq_true_eq, beq_iff_eq] at blank
  delta Char.isAlphanum Char.isAlpha Char.isUpper Char.isLower Char.isDigit
  simp only [Bool.or_eq_false_iff, Bool.and_eq_false_iff, decide_eq_false_iff_not,
    UInt32.le_iff_toNat_le]
  have same : c.val.toNat = c.toNat := rfl
  simp only [same]
  refine ⟨⟨?_, ?_⟩, ?_⟩
  all_goals
    simp
    omega

theorem solid (identifier : IsIdentifier name) : ∀ c ∈ name.toList, isBlank c = false := by
  intro c member
  cases blank : isBlank c with
  | false => rfl
  | true =>
    rcases identifier.all c member with fits | rfl
    · rw [not_alphanum blank] at fits
      cases fits
    · exact absurd blank (by decide)

theorem not_mem (identifier : IsIdentifier name) {s : Char} (apart : s.isAlphanum = false)
    (other : s ≠ '_') : s ∉ name.toList := by
  intro member
  rcases identifier.all s member with fits | same
  · rw [apart] at fits
    cases fits
  · exact other same

theorem trim_toList (identifier : IsIdentifier name) : trimChars name.toList = name.toList :=
  trimChars_of_solid identifier.solid

theorem trim (identifier : IsIdentifier name) : Text.trim name = name := by
  rw [Text.trim, identifier.trim_toList, String.ofList_toList]

theorem nonempty?_trim (identifier : IsIdentifier name) :
    nonempty? (trimChars name.toList) = some name := by
  simp [nonempty?, identifier.trim_toList, identifier.ne_empty]

end IsIdentifier

theorem split_identifiers (named : IsIdentifier name) (spaced : IsIdentifier ns) {colon : String}
    (among : colon ∈ colons) (separator : String) :
    split (name ++ colon ++ ns) separator = (name, some ns) := by
  have marks : ∀ colon ∈ colons, ∃ l ∈ [[], [' ']], ∃ r ∈ [[], [' ']],
      colon.toList = l ++ ':' :: r := by decide
  have blank : ∀ l : List Char, l ∈ [[], [' ']] → ∀ c ∈ l, isBlank c = true :=
    List.forall_mem_cons.2 ⟨List.forall_mem_nil _,
      List.forall_mem_singleton.2 (List.forall_mem_singleton.2 (by decide))⟩
  obtain ⟨l, left, r, right, whole⟩ := marks colon among
  have outer : ':' ∉ ns.toList := spaced.not_mem rfl (by decide)
  have apart : (r ++ ns.toList).head? ≠ some ':' := by
    intro head
    rcases List.mem_append.1 (List.mem_of_mem_head? head) with inside | behind
    · exact absurd (blank r right ':' inside) (by decide)
    · exact outer behind
  exact split_marked whole (blank l left) (blank r right) (named.not_mem rfl (by decide)) apart
    spaced.ne_empty named.trim spaced.trim separator

theorem trim_identifiers (named : IsIdentifier name) (spaced : IsIdentifier ns) (mark : String) :
    trim (name ++ mark ++ ns) = name ++ mark ++ ns :=
  trim_between named.trim named.ne_empty spaced.trim spaced.ne_empty mark

theorem splitTarget_fst (target separator : String) (fallback fallback' : Option String) :
    (splitTarget target separator fallback).1 = (splitTarget target separator fallback').1 := by
  simp only [splitTarget]

theorem splitTarget_of_trim {target : String} (trimmed : trim target = target)
    (parts : split target separator = (name, some ns)) (space : IsIdentifier ns) :
    splitTarget target separator none = (name, some ns) := by
  simp [splitTarget, trimmed, parts, space.nonempty?_trim]

include one

theorem splitTarget_of_isTarget (apart : s ∈ ['\\', '.']) {target : String}
    (asked : IsTarget separator target) :
    ∃ name space, splitTarget target separator none = (name, space) ∧ IsIdentifier name ∧
      ∀ ns, space = some ns → IsIdentifier ns := by
  have signs : ∀ s ∈ ['\\', '.'], s.isAlphanum = false ∧ s ≠ '_' ∧ s ≠ ':' :=
    List.forall_mem_cons.2 ⟨by decide, List.forall_mem_singleton.2 (by decide)⟩
  obtain ⟨other, noLine, noColon⟩ := signs s apart
  obtain ⟨name, named, rfl | ⟨ns, spaced, rfl | ⟨colon, among, rfl⟩⟩⟩ := asked
  · have trimmed : trim target = target := by
      rw [trim, named.trim_toList, String.ofList_toList]
    have parts := split_of_plain one (named.not_mem other noLine) (named.not_mem rfl (by decide))
    exact ⟨target, none, by simp [splitTarget, trimmed, parts], named, by simp⟩
  · have parts := split_joined one (named.not_mem other noLine) noColon
      (named.not_mem rfl (by decide)) (.of_not_mem (spaced.not_mem rfl (by decide)))
      spaced.ne_empty
    have trimmed := trim_identifiers spaced named separator
    refine ⟨name, some ns, splitTarget_of_trim trimmed parts spaced, named, ?_⟩
    rintro _ ⟨⟩
    exact spaced
  · refine ⟨name, some ns, splitTarget_of_trim (trim_identifiers named spaced colon)
      (split_identifiers named spaced among separator) spaced, named, ?_⟩
    rintro _ ⟨⟩
    exact spaced

end Name

end CodeOutline
