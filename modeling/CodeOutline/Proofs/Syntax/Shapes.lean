import CodeOutline.Proofs.Syntax.Places

/-!
The shapes of nodes. What holds of every node that a rule of the grammar makes by itself holds of
all nodes of a document, however deep they stand. Each node has the text from its start on.
-/

set_option autoImplicit false

namespace CodeOutline.Syntax

variable {σ : Type} {text : List Char}

/-! ## Nodes in a tree -/

namespace Node

/-- The node itself, or one that stands in it at any depth. -/
inductive Has : Node → Node → Prop
  | self {n : Node} : Has n n
  | inside {n c x : Node} : c ∈ n.children → Has c x → Has n x

/-- Something holds of the node and of all nodes in it. -/
inductive Each (p : Node → Prop) : Node → Prop
  | mk {n : Node} : p n → (∀ c ∈ n.children, Each p c) → Each p n

structure IsRead (text : List Char) (n : Node) : Prop where
  tail_eq : n.tail = text.drop n.start.offset
  tidy : n.isExtra = true → n.field = none

structure Encloses (n : Node) (kind : String) (xs : List Node) : Prop where
  kind_eq : n.kind = kind
  children_eq : n.children = (splitExtras xs).2
  starts : ∀ x ∈ n.children.head?, n.start = x.start ∧ n.tail = x.tail
  stops : ∀ x ∈ n.children.getLast?, n.stop = x.stop

variable {p : Node → Prop} {n x : Node}

namespace Has

theorem child (member : x ∈ n.children) : n.Has x := .inside member .self

theorem trans {y : Node} (first : n.Has x) (second : x.Has y) : n.Has y := by
  induction first with
  | self => exact second
  | inside member _ ih => exact .inside member (ih second)

theorem each (has : n.Has x) (each : n.Each p) : x.Each p := by
  induction has with
  | self => exact each
  | inside member _ ih =>
    obtain ⟨-, below⟩ := each
    exact ih (below _ member)

end Has

def deep : Nat → Node → List Node
  | 0, n => [n]
  | depth + 1, n => n.children.flatMap (deep depth)

theorem has_of_mem_deep {depth : Nat} (member : x ∈ n.deep depth) : n.Has x := by
  induction depth generalizing n with
  | zero =>
    obtain rfl := List.mem_singleton.1 member
    exact .self
  | succ depth ih =>
    obtain ⟨c, child, below⟩ := List.mem_flatMap.1 member
    exact .inside child (ih below)

namespace Each

theorem here (each : n.Each p) : p n := by
  obtain ⟨here, -⟩ := each
  exact here

theorem child (each : n.Each p) (member : x ∈ n.children) : x.Each p :=
  (Has.child member).each each

theorem imp {q : Node → Prop} (each : n.Each p) (weaker : ∀ x, p x → q x) : n.Each q := by
  induction each with
  | mk here _ ih => exact ⟨weaker _ here, ih⟩

theorem setField (each : n.Each p) {role : Option String}
    (keeps : p n → p { n with field := role }) : ({ n with field := role } : Node).Each p := by
  obtain ⟨here, below⟩ := each
  exact ⟨keeps here, below⟩

end Each

end Node

namespace Node.IsRead

variable {n b : Node} (read : n.IsRead text) (inner : b.IsRead text)

include read inner

theorem drop_tail (later : n.start.offset ≤ b.start.offset) :
    n.tail.drop (b.start.offset - n.start.offset) = b.tail := by
  rw [read.tail_eq, inner.tail_eq, List.drop_drop, Nat.add_sub_cancel' later]

theorem take_tail (later : n.start.offset ≤ b.start.offset)
    (forth : b.start.offset ≤ b.stop.offset) :
    n.tail.take (b.stop.offset - n.start.offset) =
      n.tail.take (b.start.offset - n.start.offset) ++ b.chars := by
  have parts : b.stop.offset - n.start.offset =
      (b.start.offset - n.start.offset) + (b.stop.offset - b.start.offset) := by omega
  rw [parts, List.take_add, read.drop_tail inner later, Node.chars]

end Node.IsRead

/-! ## Lists with one node of interest -/

def Single (q : Node → Prop) (xs : List Node) : Prop :=
  ∃ extras t, xs = extras ++ [t] ∧ (∀ x ∈ extras, x.isExtra = true) ∧ t.isExtra = false ∧ q t

structure Node.IsSign (s : String) (n : Node) : Prop where
  kind_eq : n.kind = s
  isNamed : n.isNamed = false
  field_eq : n.field = none
  begins : ∃ rest, n.tail = s.toList ++ rest
  length : n.stop.offset = n.start.offset + s.length

theorem core_cons {extras : List Node} {t : Node} {zs : List Node}
    (comments : ∀ x ∈ extras, x.isExtra = true) (proper : t.isExtra = false) :
    (splitExtras (extras ++ t :: zs)).2 = t :: zs := by
  rw [splitExtras, List.dropWhile_append_of_pos comments,
    List.dropWhile_cons_of_neg (by simp [proper])]

theorem core_append_cons {ys zs : List Node} {t : Node} (proper : t.isExtra = false) :
    (splitExtras (ys ++ t :: zs)).2 = (splitExtras ys).2 ++ t :: zs := by
  rw [splitExtras, List.dropWhile_append, splitExtras]
  split
  · next none =>
    rw [List.isEmpty_iff.1 none, List.dropWhile_cons_of_neg (by simp [proper]), List.nil_append]
  · rfl

namespace Single

variable {q : Node → Prop} {xs : List Node}

theorem mono {q' : Node → Prop} (single : Single q xs) (weaker : ∀ t, q t → q' t) :
    Single q' xs := by
  obtain ⟨extras, t, parts, comments, proper, own⟩ := single
  exact ⟨extras, t, parts, comments, proper, weaker t own⟩

theorem last_of_mem (single : Single q xs) {x : Node} (member : x ∈ xs)
    (proper : x.isExtra = false) : q x ∧ ∃ extras, xs = extras ++ [x] := by
  obtain ⟨extras, t, rfl, comments, -, own⟩ := single
  rcases List.mem_append.1 member with comment | last
  · rw [comments x comment] at proper
    cases proper
  · obtain rfl := List.mem_singleton.1 last
    exact ⟨own, extras, rfl⟩

theorem assignField (single : Single q xs) (free : ∀ t, q t → t.field = none) (role : String) :
    Single (fun t => ∃ u, q u ∧ t = { u with field := some role }) (assignField role xs) := by
  obtain ⟨extras, t, rfl, comments, proper, own⟩ := single
  refine ⟨extras, { t with field := some role }, ?_, comments, proper, t, own, rfl⟩
  have kept : extras.map (fun n => if n.isExtra || n.field.isSome then n
      else { n with field := some role }) = extras := by
    refine (List.map_congr_left (fun x member => ?_)).trans (List.map_id _)
    rw [comments x member, Bool.true_or, if_pos rfl, id]
  rw [Syntax.assignField, List.map_append, kept, List.map_singleton, proper, free t own]
  rfl

end Single

theorem Node.Encloses.start_le {n b : Node} {kind : String} {xs : List Node} {low high : Nat}
    (around : n.Encloses kind xs) (order : InOrder low xs high) (member : b ∈ n.children) :
    n.start.offset ≤ b.start.offset := by
  obtain ⟨first, rest, parts⟩ := List.exists_cons_of_ne_nil (List.ne_nil_of_mem member)
  obtain ⟨start, -⟩ := around.starts first (by rw [parts]; rfl)
  have inner : (first :: rest).Sublist xs := by
    rw [← parts, around.children_eq]
    exact List.dropWhile_sublist _
  rw [start]
  rw [parts] at member
  rcases List.mem_cons.1 member with rfl | later
  · exact Nat.le_refl _
  · have nested := (order.each first (inner.subset List.mem_cons_self)).1
    exact Nat.le_trans nested.start_le_stop
      (List.rel_of_pairwise_cons (order.apart.sublist inner) later)

namespace Grammar

variable {g : Grammar σ} {c stop : Cursor} {left xs : List Node} {x : Node}

theorem single_take {kind : String} {isNamed : Bool} {length : Nat} :
    Single (fun t => t.kind = kind ∧ t.isNamed = isNamed ∧ t.field = none ∧
        t.tail = (g.lead c).2.rest ∧
        t.stop.offset = t.start.offset + min length (g.lead c).2.rest.length)
      (take (g.lead c).1 (g.lead c).2 kind isNamed length).1 :=
  ⟨_, _, rfl, fun _ member => (comment_of_lead member).1, rfl, rfl, rfl, rfl, rfl,
    offset_skip _ _⟩

/-- What encloses other nodes is one of the comments in front of them, or it stands around the
rest. -/
theorem encloses_of_mem {kind : String} (member : x ∈ c.enclose stop kind xs) :
    x ∈ (splitExtras xs).1 ∨
      x.Encloses kind xs ∧ (x.children = [] → x.start = c.place ∧ x.tail = c.rest) ∧
        x.isExtra = false ∧ x.field = none := by
  unfold Cursor.enclose at member
  dsimp only at member
  split at member
  · next first rest last core ends =>
    refine (List.mem_append.1 member).imp_right (fun new => ?_)
    obtain rfl := List.mem_singleton.1 new
    refine ⟨⟨rfl, rfl, ?_, ?_⟩, ?_, rfl, rfl⟩
    · rintro y begins
      rw [core] at begins
      obtain rfl := Option.some.inj begins
      exact ⟨rfl, rfl⟩
    · rintro y closes
      rw [ends] at closes
      obtain rfl := Option.some.inj closes
      rfl
    · intro none
      rw [core] at none
      cases none
  · next nothing =>
    refine (List.mem_append.1 member).imp_right (fun new => ?_)
    obtain rfl := List.mem_singleton.1 new
    have core : (splitExtras xs).2 = [] := by
      cases parts : (splitExtras xs).2 with
      | nil => rfl
      | cons first rest =>
        have ends : (splitExtras xs).2.getLast? = some ((first :: rest).getLast (by simp)) := by
          rw [parts]
          exact List.getLast?_eq_some_getLast _
        exact (nothing _ _ _ parts ends).elim
    exact ⟨⟨rfl, core.symm, by rintro y ⟨⟩, by rintro y ⟨⟩⟩, fun _ => ⟨rfl, rfl⟩, rfl, rfl⟩

theorem single_enclose {kind : String} :
    Single (fun t => t.kind = kind ∧ t.field = none ∧ t.Encloses kind xs)
      (c.enclose stop kind xs) := by
  have proper : ∀ x ∈ (splitExtras xs).1, x.isExtra = true :=
    fun x member => List.all_eq_true.1 List.all_takeWhile x member
  have whole : ∃ t, c.enclose stop kind xs = (splitExtras xs).1 ++ [t] ∧ t.isExtra = false := by
    unfold Cursor.enclose
    dsimp only
    split <;> exact ⟨_, rfl, rfl⟩
  obtain ⟨t, parts, own⟩ := whole
  have member : t ∈ c.enclose stop kind xs := parts ▸ List.mem_append_right _ (by simp)
  refine ⟨_, t, parts, proper, own, ?_⟩
  rcases encloses_of_mem member with extra | ⟨around, -, -, free⟩
  · rw [proper t extra] at own
    cases own
  · exact ⟨around.kind_eq, free, around⟩

theorem isSign_of_append {s : String} {rest : List Char}
    (fits : s.toList ++ rest = (g.lead c).2.rest) :
    Single (Node.IsSign s) (take (g.lead c).1 (g.lead c).2 s false s.length).1 := by
  refine single_take.mono ?_
  rintro t ⟨kind, unnamed, free, tail, stop⟩
  refine ⟨kind, unnamed, free, ⟨rest, tail.trans fits.symm⟩, ?_⟩
  rw [stop, ← fits, List.length_append, String.length_toList,
    Nat.min_eq_left (Nat.le_add_right _ _)]

theorem single_sign {s : String} (derived : g.Derives left (.sign s) c xs stop) :
    Single (Node.IsSign s) xs := by
  cases derived with
  | sign fits => exact isSign_of_append (Scan.append_of_dropStart? fits)

theorem append_of_longestSign? {known : List String} {cs : List Char} {s : String}
    (found : longestSign? known cs = some s) : ∃ rest, s.toList ++ rest = cs := by
  suffices all : ∀ s ∈ longestSign? known cs, ∃ rest, s.toList ++ rest = cs from all s found
  rw [longestSign?]
  refine List.foldlRecOn (motive := fun best : Option String =>
    ∀ s ∈ best, ∃ rest, s.toList ++ rest = cs) known _ ?none ?step
  case none =>
    intro s chosen
    cases chosen
  case step =>
    intro best begins k _ s chosen
    split at chosen
    · exact begins s chosen
    · next rest fits =>
      have own : ∃ rest, k.toList ++ rest = cs := ⟨rest, Scan.append_of_dropStart? fits⟩
      split at chosen
      · cases chosen
        exact own
      · split at chosen
        · cases chosen
          exact own
        · exact begins s chosen

theorem single_longest {known wanted : List String}
    (derived : g.Derives left (.longest known wanted) c xs stop) :
    ∃ s ∈ wanted, Single (Node.IsSign s) xs := by
  cases derived with
  | longest found among =>
    obtain ⟨rest, fits⟩ := append_of_longestSign? found
    exact ⟨_, among, isSign_of_append fits⟩

theorem single_leaf {kind : String} {scan : Scan}
    (derived : g.Derives left (.leaf kind scan) c xs stop) :
    Single (fun t => t.kind = kind ∧ t.field = none ∧ t.isNamed = true ∧
      scan.Makes t.chars) xs := by
  cases derived with
  | leaf fits =>
    refine ⟨_, _, rfl, fun _ member => (comment_of_lead member).1, rfl, rfl, rfl, rfl, _, _, fits,
      ?_⟩
    exact chars_of_token rfl rfl rfl

theorem single_node {kind : String} {a : Rule σ}
    (derived : g.Derives left (.node kind a) c xs stop) :
    Single (fun t => t.kind = kind ∧ t.field = none ∧ ∃ c' ys stop',
      g.Derives [] a c' ys stop' ∧ t.Encloses kind ys) xs := by
  cases derived with
  | node _ inner =>
    exact single_enclose.mono (fun t own => ⟨own.1, own.2.1, _, _, _, inner, own.2.2⟩)

theorem single_call {kind : String} {name : σ} {a : Rule σ} (rule : g.rule name = .node kind a)
    (derived : g.Derives left (.call name) c xs stop) :
    Single (fun t => t.kind = kind ∧ t.field = none ∧ ∃ c' ys stop',
      g.Derives [] a c' ys stop' ∧ t.Encloses kind ys) xs := by
  cases derived with
  | call derived =>
    rw [rule] at derived
    exact single_node derived

theorem single_field {role : String} {a : Rule σ} {q : Node → Prop}
    (inner : ∀ {ys}, g.Derives left a c ys stop → Single (fun t => t.field = none ∧ q t) ys)
    (derived : g.Derives left (.field role a) c xs stop) :
    Single (fun t => ∃ u, q u ∧ t = { u with field := some role }) xs := by
  cases derived with
  | field derived =>
    refine ((inner derived).assignField (fun t own => own.1) role).mono ?_
    rintro t ⟨u, own, made⟩
    exact ⟨u, own.2, made⟩

theorem chars_of_signs {kind first last : String} {a : Rule σ} {low high : Nat} {n : Node}
    (derived : g.Derives left (.seq (.sign first) (.seq a (.sign last))) c xs stop)
    (order : InOrder low xs high) (each : ∀ x ∈ xs, x.IsRead text) (around : n.Encloses kind xs) :
    ∃ inside, n.chars = first.toList ++ (inside ++ last.toList) := by
  cases derived with
  | seq opens others =>
    cases others with
    | @seq _ _ _ _ ys _ _ _ inner closes =>
      obtain ⟨extras, t, rfl, comments, proper, sign⟩ := single_sign opens
      obtain ⟨extras', t', rfl, -, proper', sign'⟩ := single_sign closes
      have parts : extras ++ [t] ++ (ys ++ (extras' ++ [t'])) =
          extras ++ t :: (ys ++ extras' ++ [t']) := by simp
      rw [parts] at order each around
      have core := around.children_eq.trans (core_cons comments proper)
      obtain ⟨start, tail⟩ := around.starts t (by rw [core]; rfl)
      have ends : n.stop = t'.stop := by
        refine around.stops t' ?_
        rw [core, ← List.cons_append, List.getLast?_concat]
        rfl
      have opening : t.IsRead text := each t (by simp)
      have closing : t'.IsRead text := each t' (by simp)
      have apart : t.stop.offset ≤ t'.start.offset :=
        List.rel_of_pairwise_cons (List.pairwise_append.1 order.apart).2.1 (by simp)
      have forth := (order.each t' (by simp)).1.start_le_stop
      have lower := Nat.le_trans (order.each t (by simp)).1.start_le_stop apart
      obtain ⟨rest, begins⟩ := sign.begins
      obtain ⟨rest', begins'⟩ := sign'.begins
      have own : t'.chars = last.toList := by
        have count : t'.stop.offset - t'.start.offset = last.toList.length := by
          rw [sign'.length, String.length_toList]
          omega
        rw [Node.chars, count, begins', List.take_left]
      have whole : first.toList.length ≤ t'.start.offset - t.start.offset := by
        rw [String.length_toList]
        have length := sign.length
        omega
      refine ⟨rest.take (t'.start.offset - t.start.offset - first.toList.length), ?_⟩
      rw [Node.chars, start, tail, ends, opening.take_tail closing lower forth, own, begins,
        List.take_append, List.take_of_length_le whole, List.append_assoc]

end Grammar

/-! ## The first node in a role -/

/-- Of the nodes that a rule reads the first one in the role has some property, and there is one. -/
def Rule.Gives (g : Grammar σ) (role : String) (q : Node → Prop) (a : Rule σ) : Prop :=
  ∀ {c xs stop}, g.Derives [] a c xs stop → (∀ x ∈ xs, x.isExtra = true → x.field = none) →
    ∃ t, xs.find? (fun x => x.field == some role) = some t ∧ q t

namespace Rule.Gives

variable {g : Grammar σ} {role : String} {q : Node → Prop} {a b : Rule σ}

theorem imp {q' : Node → Prop} (gives : a.Gives g role q) (weaker : ∀ t, q t → q' t) :
    a.Gives g role q' := by
  intro c xs stop derived tidy
  obtain ⟨t, found, own⟩ := gives derived tidy
  exact ⟨t, found, weaker t own⟩

theorem field (inner : ∀ {c ys stop}, g.Derives [] a c ys stop →
      Single (fun t => t.field = none ∧ q t) ys) :
    (Rule.field role a).Gives g role (fun t => ∃ u, q u ∧ t = { u with field := some role }) := by
  intro c xs stop derived tidy
  obtain ⟨extras, t, rfl, comments, -, u, own, same⟩ := Grammar.single_field inner derived
  refine ⟨t, ?_, u, own, same⟩
  have bare : extras.find? (fun x => x.field == some role) = none := by
    refine List.find?_eq_none.2 (fun x member => ?_)
    rw [tidy x (List.mem_append_left _ member) (comments x member)]
    exact Bool.false_ne_true
  rw [List.find?_append, bare, Option.none_or, List.find?_singleton, same]
  simp

theorem ahead (gives : a.Gives g role q) : (Rule.seq a b).Gives g role q := by
  intro c xs stop derived tidy
  cases derived with
  | seq first second =>
    obtain ⟨t, found, own⟩ := gives first (fun x member => tidy x (List.mem_append_left _ member))
    exact ⟨t, by rw [List.find?_append, found, Option.some_or], own⟩

theorem behind (rules : ∀ name, (g.rule name).isRoleless = true)
    (others : a.Fills g role (fun _ => False)) (gives : b.Gives g role q) :
    (Rule.seq a b).Gives g role q := by
  intro c xs stop derived tidy
  cases derived with
  | @seq _ _ _ _ ys _ _ _ first second =>
    obtain ⟨t, found, own⟩ := gives second (fun x member => tidy x (List.mem_append_right _ member))
    have bare : ys.find? (fun x => x.field == some role) = none := by
      refine List.find?_eq_none.2 (fun x member filled => ?_)
      exact Grammar.of_fills rules others first x member
        (tidy x (List.mem_append_left _ member)) (beq_iff_eq.1 filled)
    exact ⟨t, by rw [List.find?_append, bare, Option.none_or, found], own⟩

end Rule.Gives

theorem Node.Encloses.child?_eq {n t : Node} {kind role : String} {xs : List Node}
    (around : n.Encloses kind xs) (tidy : ∀ x ∈ xs, x.isExtra = true → x.field = none)
    (found : xs.find? (fun x => x.field == some role) = some t) : n.child? role = some t := by
  have bare : (splitExtras xs).1.find? (fun x => x.field == some role) = none := by
    refine List.find?_eq_none.2 (fun x member => ?_)
    rw [tidy x ((Grammar.mem_splitExtras xs).1 (.inl member))
      (List.all_eq_true.1 List.all_takeWhile x member)]
    exact Bool.false_ne_true
  have parts : (splitExtras xs).1 ++ (splitExtras xs).2 = xs := List.takeWhile_append_dropWhile
  rw [← parts, List.find?_append, bare, Option.none_or] at found
  rw [Node.child?, around.children_eq, found]

/-! ## What a rule makes by itself -/

def Rule.Builds (g : Grammar σ) (text : List Char) (p : Node → Prop) : Rule σ → Prop
  | .seq a b | .alt a b | .chain a b => a.Builds g text p ∧ b.Builds g text p
  | .many a | .field _ a | .grow a | .inside a => a.Builds g text p
  | .sign kind | .word kind | .leaf kind _ | .near kind _ | .placed kind _ =>
    ∀ n : Node, n.kind = kind → p n
  | .longest _ wanted => ∀ kind ∈ wanted, ∀ n : Node, n.kind = kind → p n
  | .node kind a =>
    a.Builds g text p ∧ ∀ fuel c xs stop, g.run fuel [] a c = some (xs, stop) →
      InOrder c.place.offset xs stop.place.offset →
      (∀ x ∈ xs, x.Each (fun x => x.IsRead text ∧ p x)) → ∀ n : Node, n.Encloses kind xs → p n
  | .wrap kind _ a => a.Builds g text p ∧ ∀ n : Node, n.kind = kind → p n
  | _ => True

def Rule.shunsBut (right : String → Rule σ → Bool) (such : String → Bool) : Rule σ → Bool
  | .seq a b | .alt a b | .chain a b => a.shunsBut right such && b.shunsBut right such
  | .many a | .field _ a | .grow a | .inside a => a.shunsBut right such
  | .sign kind | .word kind | .leaf kind _ | .near kind _ | .placed kind _ => !such kind
  | .longest _ wanted => wanted.all (fun kind => !such kind)
  | .node kind a => (!such kind || right kind a) && a.shunsBut right such
  | .wrap kind _ a => !such kind && a.shunsBut right such
  | _ => true

def Rule.shuns (such : String → Bool) : Rule σ → Bool := Rule.shunsBut (fun _ _ => false) such

namespace Rule

variable {g : Grammar σ} {p : Node → Prop} {right : String → Rule σ → Bool} {such : String → Bool}
  {a : Rule σ}

theorem builds_of_shunsBut (free : ∀ n : Node, such n.kind = false → p n)
    (fits : ∀ {kind a}, right kind a = true → ∀ {c xs stop}, g.Derives [] a c xs stop →
      ∀ n : Node, n.Encloses kind xs → p n)
    (shuns : a.shunsBut right such = true) : a.Builds g text p := by
  have other {kind : String} (shuns : (!such kind) = true) (n : Node) (same : n.kind = kind) :
      p n := by
    refine free n ?_
    rw [same]
    simpa using shuns
  induction a with
  | seq a b iha ihb | alt a b iha ihb | chain a b iha ihb =>
    obtain ⟨first, second⟩ := Bool.and_eq_true_iff.1 shuns
    exact ⟨iha first, ihb second⟩
  | many a ih | field _ a ih | grow a ih | inside a ih => exact ih shuns
  | sign | word | leaf | near | placed => exact other shuns
  | longest _ wanted => exact fun kind among => other (List.all_eq_true.1 shuns kind among)
  | node kind a ih =>
    obtain ⟨own, inner⟩ := Bool.and_eq_true_iff.1 shuns
    refine ⟨ih inner, fun _ _ _ _ run _ _ n around => ?_⟩
    rcases Bool.or_eq_true_iff.1 own with apart | known
    · exact other apart n around.kind_eq
    · exact fits known (Grammar.derives_of_run run) n around
  | wrap kind _ a ih =>
    obtain ⟨own, inner⟩ := Bool.and_eq_true_iff.1 shuns
    exact ⟨ih inner, other own⟩
  | _ => trivial

theorem builds_of_shuns (free : ∀ n : Node, such n.kind = false → p n)
    (shuns : a.shuns such = true) : a.Builds g text p := by
  have none : a.shunsBut (fun _ _ => false) such = true := shuns
  exact builds_of_shunsBut free (fun never => by cases never) none

theorem builds_choice {rules : List (Rule σ)} (each : ∀ a ∈ rules, a.Builds g text p) :
    (choice rules).Builds g text p := by
  induction rules with
  | nil => trivial
  | cons a rules ih =>
    obtain ⟨first, others⟩ := List.forall_mem_cons.1 each
    cases rules with
    | nil => exact first
    | cons b rules => exact ⟨first, ih others⟩

end Rule

/-! ## All nodes of a document -/

namespace Grammar

variable {g : Grammar σ} {p : Node → Prop} {fuel : Nat} {a : Rule σ} {c stop : Cursor}
  {left xs : List Node} {x : Node}

theorem tail_eq_of_isOf (here : c.IsOf text) (start : x.start = c.place) (tail : x.tail = c.rest) :
    x.tail = text.drop x.start.offset := by
  obtain ⟨front, whole, place⟩ := here
  rw [tail, start, place, Place.behind_offset, whole, List.drop_left]

theorem kind_of_read? {kind : String} {root : Node} (read : g.read? kind a text = some root) :
    root.kind = kind := by
  simp only [read?] at read
  split at read
  · cases read
  · split at read <;> cases read
    rfl

section Documents

variable (comments : ∀ {depth cs length kind}, g.between depth cs = some (length, some kind) →
    ∀ n : Node, n.kind = kind → p n)
  (roles : ∀ {n : Node}, p n → ∀ role, p { n with field := role })
  (moves : ∀ name, ∀ f ∈ (g.rule name).moves, StaysIn text f ∧ GoesOn f)
  (rules : ∀ name, (g.rule name).Builds g text p)

include comments in
theorem each_lead (here : c.IsOf text) :
    ∀ x ∈ (g.lead c).1, x.Each (fun x => x.IsRead text ∧ p x) := by
  refine lead_rec (motive := fun c xs _ => c.IsOf text →
    ∀ x ∈ xs, x.Each (fun x => x.IsRead text ∧ p x)) ?stays ?piece c here
  case stays => exact fun _ _ => List.forall_mem_nil _
  case piece =>
    intro c stop n kind xs found later here
    have behind := later (here.skip n)
    cases kind with
    | none => exact behind
    | some kind =>
      refine List.forall_mem_cons.2 ⟨⟨⟨?_, comments found _ rfl⟩, List.forall_mem_nil _⟩, behind⟩
      exact ⟨tail_eq_of_isOf here rfl rfl, fun _ => rfl⟩

theorem each_take {extras : List Node} {kind : String} {isNamed : Bool} {length : Nat}
    (here : c.IsOf text) (before : ∀ x ∈ extras, x.Each (fun x => x.IsRead text ∧ p x))
    (own : ∀ n : Node, n.kind = kind → p n) :
    ∀ x ∈ (take extras c kind isNamed length).1, x.Each (fun x => x.IsRead text ∧ p x) := by
  refine List.forall_mem_append.2 ⟨before, List.forall_mem_singleton.2 ⟨⟨?_, own _ rfl⟩, ?_⟩⟩
  · exact ⟨tail_eq_of_isOf here rfl rfl, fun _ => rfl⟩
  · exact List.forall_mem_nil _

include roles in
theorem each_assignField {role : String}
    (inner : ∀ x ∈ xs, x.Each (fun x => x.IsRead text ∧ p x)) :
    ∀ x ∈ assignField role xs, x.Each (fun x => x.IsRead text ∧ p x) := by
  intro x member
  rcases mem_assignField member with ⟨there, -⟩ | ⟨y, there, proper, rfl⟩
  · exact inner x there
  · refine (inner y there).setField (fun both => ⟨⟨both.1.tail_eq, fun extra => ?_⟩, ?_⟩)
    · rw [proper] at extra
      cases extra
    · exact roles both.2 _

theorem each_enclose {kind : String} (here : c.IsOf text)
    (inner : ∀ x ∈ xs, x.Each (fun x => x.IsRead text ∧ p x))
    (own : ∀ n : Node, n.Encloses kind xs → p n) :
    ∀ x ∈ c.enclose stop kind xs, x.Each (fun x => x.IsRead text ∧ p x) := by
  intro x member
  rcases encloses_of_mem member with extra | ⟨around, bare, -, free⟩
  · exact inner x ((mem_splitExtras xs).1 (.inl extra))
  · have below : ∀ y ∈ x.children, y.Each (fun x => x.IsRead text ∧ p x) := by
      intro y member
      rw [around.children_eq] at member
      exact inner y ((mem_splitExtras xs).1 (.inr member))
    refine ⟨⟨⟨?_, fun _ => free⟩, own x around⟩, below⟩
    cases parts : x.children with
    | nil =>
      obtain ⟨start, tail⟩ := bare parts
      exact tail_eq_of_isOf here start tail
    | cons first rest =>
      obtain ⟨start, tail⟩ := around.starts first (by rw [parts]; rfl)
      have first := (below first (by rw [parts]; exact List.mem_cons_self)).here.1
      rw [start, tail, first.tail_eq]

include comments roles moves rules

theorem each_of_derives (derived : g.Derives left a c xs stop)
    (own : ∀ f ∈ a.moves, StaysIn text f ∧ GoesOn f) (builds : a.Builds g text p)
    (here : c.IsOf text) (before : ∀ x ∈ left, x.Each (fun x => x.IsRead text ∧ p x)) :
    stop.IsOf text ∧ ∀ x ∈ xs, x.Each (fun x => x.IsRead text ∧ p x) := by
  have nothing : ∀ x ∈ ([] : List Node), x.Each (fun x => x.IsRead text ∧ p x) :=
    List.forall_mem_nil _
  induction derived with
  | done | test | ahead | notAhead | manyNone => exact ⟨here, nothing⟩
  | move moved => exact ⟨(own _ (List.mem_singleton_self _)).1 _ _ _ here moved, nothing⟩
  | call _ ih => exact ih (moves _) (rules _) here before
  | seq _ _ first second =>
    obtain ⟨one, other⟩ := List.forall_mem_append.1 own
    obtain ⟨middle, ofFirst⟩ := first one builds.1 here nothing
    obtain ⟨behind, ofSecond⟩ := second other builds.2 middle nothing
    exact ⟨behind, List.forall_mem_append.2 ⟨ofFirst, ofSecond⟩⟩
  | altLeft _ ih => exact ih (List.forall_mem_append.1 own).1 builds.1 here before
  | altRight _ ih => exact ih (List.forall_mem_append.1 own).2 builds.2 here before
  | manyOne _ ih => exact ih own builds here nothing
  | manyMore _ _ first others =>
    obtain ⟨middle, ofFirst⟩ := first own builds here nothing
    obtain ⟨behind, ofOthers⟩ := others own builds middle nothing
    exact ⟨behind, List.forall_mem_append.2 ⟨ofFirst, ofOthers⟩⟩
  | sign | word | leaf =>
    have led := (isOf_lead (g := g) here).1
    exact ⟨led.skip _, each_take led (each_lead comments here) builds⟩
  | longest _ among =>
    have led := (isOf_lead (g := g) here).1
    exact ⟨led.skip _, each_take led (each_lead comments here) (builds _ among)⟩
  | near | placed => exact ⟨here.skip _, each_take here nothing builds⟩
  | node run _ ih =>
    obtain ⟨behind, inner⟩ := ih own builds.1 here nothing
    have order := (inOrder_of_run (fun name f among => (moves name f among).2) run
      (fun f among => (own f among).2) (.nil (Nat.le_refl _)) endsProper_nil).1
    exact ⟨behind, each_enclose here inner (builds.2 _ _ _ _ run order inner)⟩
  | field _ ih =>
    obtain ⟨behind, inner⟩ := ih own builds here before
    exact ⟨behind, each_assignField roles inner⟩
  | chain _ _ base growth =>
    obtain ⟨one, other⟩ := List.forall_mem_append.1 own
    obtain ⟨middle, ofBase⟩ := base one builds.1 here nothing
    exact growth other builds.2 middle ofBase
  | growNone => exact ⟨here, before⟩
  | growMore _ _ one others =>
    obtain ⟨middle, ofOne⟩ := one own builds here before
    exact others own builds middle ofOne
  | wrap _ ih =>
    obtain ⟨behind, inner⟩ := ih own builds.1 here nothing
    refine ⟨behind, each_enclose here ?_ (fun n around => builds.2 n around.kind_eq)⟩
    exact List.forall_mem_append.2 ⟨each_assignField roles before, inner⟩
  | inside _ ih =>
    obtain ⟨behind, inner⟩ := ih own builds here nothing
    exact ⟨behind, inner⟩

theorem each_of_read? {kind : String} {root : Node}
    (own : ∀ f ∈ a.moves, StaysIn text f ∧ GoesOn f) (builds : a.Builds g text p)
    (read : g.read? kind a text = some root) :
    ∀ x ∈ root.children, x.Each (fun x => x.IsRead text ∧ p x) := by
  simp only [read?] at read
  split at read
  · cases read
  · next nodes stop found =>
    obtain ⟨behind, inner⟩ := each_of_derives comments roles moves rules
      (derives_of_run found) own builds (.start text) (List.forall_mem_nil _)
    split at read
    · cases read
      exact List.forall_mem_append.2 ⟨inner, each_lead comments behind⟩
    · cases read

end Documents

end Grammar

end CodeOutline.Syntax
