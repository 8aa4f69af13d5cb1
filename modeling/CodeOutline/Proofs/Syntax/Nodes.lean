import CodeOutline.Proofs.Syntax.Derivations
import CodeOutline.Proofs.Syntax.Scanning

/-!
What all nodes have in common that a grammar makes. A demand on the children of the nodes of
some kinds holds of every node that is read, when it holds where a rule makes such a node.
-/

set_option autoImplicit false

namespace CodeOutline.Syntax

variable {σ : Type}

/-- The demand holds of the children of the node and of those of every node below it. Comments
have no role in their parent. -/
inductive Node.Sound (demand : String → List Node → Prop) : Node → Prop
  | mk {n : Node} : (n.isExtra = true → n.field = none) → demand n.kind n.children →
      (∀ c ∈ n.children, Node.Sound demand c) → Node.Sound demand n

namespace Node.Sound

variable {demand : String → List Node → Prop} {n : Node}

theorem tidy (sound : n.Sound demand) : n.isExtra = true → n.field = none := by
  obtain ⟨tidy, -, -⟩ := sound
  exact tidy

theorem demanded (sound : n.Sound demand) : demand n.kind n.children := by
  obtain ⟨-, here, -⟩ := sound
  exact here

theorem child (sound : n.Sound demand) : ∀ c ∈ n.children, c.Sound demand := by
  obtain ⟨-, -, below⟩ := sound
  exact below

theorem childless (demand : String → List Node → Prop) (none : ∀ kind, demand kind [])
    (tidy : n.isExtra = true → n.field = .none) (bare : n.children = []) : n.Sound demand :=
  .mk tidy (bare ▸ none n.kind) (bare ▸ nofun)

theorem setField (sound : n.Sound demand) (proper : n.isExtra = false) (role : String) :
    ({ n with field := some role } : Node).Sound demand := by
  obtain ⟨-, here, below⟩ := sound
  exact .mk (fun extra => by simp [proper] at extra) here below

end Node.Sound

def Rule.Meets (g : Grammar σ) (demand : String → List Node → Prop) : Rule σ → Prop
  | .seq a b | .alt a b | .chain a b => a.Meets g demand ∧ b.Meets g demand
  | .many a | .field _ a | .grow a | .inside a => a.Meets g demand
  | .node kind a =>
    a.Meets g demand ∧ ∀ fuel c xs stop, g.run fuel [] a c = some (xs, stop) →
      (∀ x ∈ xs, x.Sound demand) → demand kind (splitExtras xs).2
  | .wrap kind _ a => a.Meets g demand ∧ ∀ children, demand kind children
  | _ => True

namespace Grammar

variable {g : Grammar σ} {demand : String → List Node → Prop} {fuel : Nat} {a : Rule σ}
  {c stop : Cursor} {left xs : List Node} {x : Node}

theorem comment_of_lead (member : x ∈ (g.lead c).1) :
    x.isExtra = true ∧ x.field = none ∧ x.children = [] := by
  refine lead_rec (motive := fun _ xs _ =>
    ∀ x ∈ xs, x.isExtra = true ∧ x.field = none ∧ x.children = [])
    (fun _ => List.forall_mem_nil _) (fun {_ _ _ kind _} _ later => ?_) c x member
  cases kind with
  | none => exact later
  | some kind => exact List.forall_mem_cons.2 ⟨⟨rfl, rfl, rfl⟩, later⟩

theorem field_of_take {extras : List Node} {kind : String} {isNamed : Bool} {length : Nat}
    (before : ∀ x ∈ extras, x.field = none)
    (member : x ∈ (take extras c kind isNamed length).1) : x.field = none := by
  rcases List.mem_append.1 member with extra | token
  · exact before x extra
  · obtain rfl := List.mem_singleton.1 token
    rfl

section Pieces

variable (bare : ∀ kind, demand kind [])

include bare

theorem sound_lead (member : x ∈ (g.lead c).1) : x.Sound demand := by
  obtain ⟨-, free, childless⟩ := comment_of_lead member
  exact .childless demand bare (fun _ => free) childless

theorem sound_take {extras : List Node} {kind : String} {isNamed : Bool} {length : Nat}
    (before : ∀ x ∈ extras, x.Sound demand)
    (member : x ∈ (take extras c kind isNamed length).1) : x.Sound demand := by
  rcases List.mem_append.1 member with extra | token
  · exact before x extra
  · obtain rfl := List.mem_singleton.1 token
    exact .childless demand bare (fun _ => rfl) rfl

end Pieces

theorem mem_splitExtras (nodes : List Node) :
    x ∈ (splitExtras nodes).1 ∨ x ∈ (splitExtras nodes).2 ↔ x ∈ nodes := by
  rw [← List.mem_append, splitExtras, List.takeWhile_append_dropWhile]

theorem mem_core (member : x ∈ xs) (proper : x.isExtra = false) : x ∈ (splitExtras xs).2 := by
  refine ((mem_splitExtras xs).2 member).resolve_left (fun extra => ?_)
  have marked := List.all_eq_true.1 List.all_takeWhile x extra
  rw [proper] at marked
  cases marked

theorem sound_enclose {kind : String} (inner : ∀ x ∈ xs, x.Sound demand)
    (met : demand kind (splitExtras xs).2) (member : x ∈ c.enclose stop kind xs) :
    x.Sound demand := by
  have extra : ∀ y ∈ (splitExtras xs).1, y.Sound demand := fun y there =>
    inner y ((mem_splitExtras xs).1 (.inl there))
  have proper : ∀ y ∈ (splitExtras xs).2, y.Sound demand := fun y there =>
    inner y ((mem_splitExtras xs).1 (.inr there))
  unfold Cursor.enclose at member
  cases core : (splitExtras xs).2 with
  | nil =>
    rw [core] at met
    simp only [core] at member
    rcases List.mem_append.1 member with outer | new
    · exact extra x outer
    · obtain rfl := List.mem_singleton.1 new
      exact .mk (fun _ => rfl) met nofun
  | cons first rest =>
    rw [core] at met proper
    simp only [core] at member
    rcases List.mem_append.1 member with outer | new
    · exact extra x outer
    · obtain rfl := List.mem_singleton.1 new
      exact .mk (fun _ => rfl) met proper

theorem enclose_eq_concat (c stop : Cursor) (kind : String) (xs : List Node) :
    ∃ extras t, c.enclose stop kind xs = extras ++ [t] ∧ (∀ x ∈ extras, x ∈ xs) ∧
      t.isExtra = false := by
  have inside : ∀ x ∈ (splitExtras xs).1, x ∈ xs := fun x extra => (mem_splitExtras xs).1 (.inl extra)
  unfold Cursor.enclose
  dsimp only
  split <;> exact ⟨_, _, rfl, inside, rfl⟩

theorem field_of_enclose {kind : String} (member : x ∈ c.enclose stop kind xs)
    (tidy : x.isExtra = true → x.field = none) : x.field = none := by
  unfold Cursor.enclose at member
  have comment : x ∈ (splitExtras xs).1 → x.field = none := fun extra =>
    tidy (List.all_eq_true.1 List.all_takeWhile x extra)
  simp only at member
  split at member
  all_goals
    rcases List.mem_append.1 member with outer | new
    · exact comment outer
    · obtain rfl := List.mem_singleton.1 new
      rfl

theorem kind_of_enclose {kind : String} (member : x ∈ c.enclose stop kind xs)
    (proper : x.isExtra = false) : x.kind = kind := by
  unfold Cursor.enclose at member
  have comment : x ∉ (splitExtras xs).1 := by
    intro extra
    have marked := List.all_eq_true.1 List.all_takeWhile x extra
    rw [proper] at marked
    cases marked
  simp only at member
  split at member
  all_goals
    rcases List.mem_append.1 member with outer | new
    · exact absurd outer comment
    · obtain rfl := List.mem_singleton.1 new
      rfl

theorem mem_assignField {role : String} (member : x ∈ assignField role xs) :
    (x ∈ xs ∧ (x.isExtra = true ∨ x.field.isSome = true)) ∨
      ∃ y ∈ xs, y.isExtra = false ∧ x = { y with field := some role } := by
  obtain ⟨y, there, made⟩ := List.mem_map.1 member
  split at made
  · next settled =>
    subst made
    exact .inl ⟨there, by simpa using settled⟩
  · next free =>
    refine .inr ⟨y, there, ?_, made.symm⟩
    cases extra : y.isExtra with
    | false => rfl
    | true => simp [extra] at free

theorem sound_assignField {role : String} (inner : ∀ x ∈ xs, x.Sound demand)
    (member : x ∈ assignField role xs) : x.Sound demand := by
  rcases mem_assignField member with ⟨there, -⟩ | ⟨y, there, proper, rfl⟩
  · exact inner x there
  · exact (inner y there).setField proper role

theorem sound_of_run (bare : ∀ kind, demand kind [])
    (rules : ∀ name, (g.rule name).Meets g demand) (run : g.run fuel left a c = some (xs, stop))
    (meets : a.Meets g demand) (before : ∀ x ∈ left, x.Sound demand) :
    ∀ x ∈ xs, x.Sound demand := by
  have nothing : ∀ x ∈ ([] : List Node), x.Sound demand := List.forall_mem_nil _
  have derived := derives_of_run run
  clear run
  induction derived with
  | done | test | ahead | notAhead | move | manyNone => exact nothing
  | call _ ih => exact ih (rules _) before
  | seq _ _ first second =>
    exact List.forall_mem_append.2 ⟨first meets.1 nothing, second meets.2 nothing⟩
  | altLeft _ ih => exact ih meets.1 before
  | altRight _ ih => exact ih meets.2 before
  | manyOne _ ih => exact ih meets nothing
  | manyMore _ _ first others =>
    exact List.forall_mem_append.2 ⟨first meets nothing, others meets nothing⟩
  | sign | word | longest | leaf =>
    exact fun x member => sound_take bare (fun y extra => sound_lead bare extra) member
  | near | placed => exact fun x member => sound_take bare nothing member
  | node run _ ih =>
    have inner := ih meets.1 nothing
    exact fun x member => sound_enclose inner (meets.2 _ _ _ _ run inner) member
  | field _ ih => exact fun x member => sound_assignField (ih meets before) member
  | chain _ _ base growth => exact growth meets.2 (base meets.1 nothing)
  | growNone => exact before
  | growMore _ _ one others => exact others meets (one meets before)
  | wrap _ ih =>
    refine fun x member =>
      sound_enclose (List.forall_mem_append.2 ⟨fun y there => ?_, ih meets.1 nothing⟩) (meets.2 _)
        member
    exact sound_assignField before there
  | inside _ ih => exact ih meets nothing

theorem sound_of_read? {kind : String} {text : List Char} {root : Node}
    (bare : ∀ kind, demand kind []) (rules : ∀ name, (g.rule name).Meets g demand)
    (meets : a.Meets g demand) (read : g.read? kind a text = some root) :
    ∀ x ∈ root.children, x.Sound demand := by
  simp only [read?] at read
  split at read
  · cases read
  · next nodes stop found =>
    split at read
    · cases read
      intro x member
      rcases List.mem_append.1 member with node | extra
      · exact sound_of_run bare rules found meets (List.forall_mem_nil _) x node
      · exact sound_lead bare extra
    · cases read

end Grammar

/-! Rules that make no node of the kinds in question -/

namespace Rule

def avoids (kinds : List String) : Rule σ → Bool
  | .seq a b | .alt a b | .chain a b => a.avoids kinds && b.avoids kinds
  | .many a | .field _ a | .grow a | .inside a => a.avoids kinds
  | .node kind a | .wrap kind _ a => !kinds.contains kind && a.avoids kinds
  | _ => true

variable {g : Grammar σ} {demand : String → List Node → Prop} {kinds : List String} {a : Rule σ}

theorem meets_of_avoids (free : ∀ kind ∉ kinds, ∀ children, demand kind children)
    (avoids : a.avoids kinds = true) : a.Meets g demand := by
  induction a with
  | seq a b iha ihb | alt a b iha ihb | chain a b iha ihb =>
    simp only [Rule.avoids, Bool.and_eq_true] at avoids
    exact ⟨iha avoids.1, ihb avoids.2⟩
  | many a ih | field _ a ih | grow a ih | inside a ih => exact ih avoids
  | node kind a ih | wrap kind _ a ih =>
    simp only [Rule.avoids, Bool.and_eq_true, Bool.not_eq_true', List.contains_eq_mem,
      decide_eq_false_iff_not] at avoids
    first
    | exact ⟨ih avoids.2, fun _ _ _ _ _ _ => free kind avoids.1 _⟩
    | exact ⟨ih avoids.2, free kind avoids.1⟩
  | _ => trivial

theorem meets_choice {rules : List (Rule σ)} (each : ∀ a ∈ rules, a.Meets g demand) :
    (choice rules).Meets g demand := by
  induction rules with
  | nil => trivial
  | cons a rules ih =>
    rw [List.forall_mem_cons] at each
    cases rules with
    | nil => exact each.1
    | cons b rules => exact ⟨each.1, ih each.2⟩

end Rule

/-! Children by their roles -/

/-- Every child in the role of a name is a token of the shape that goes with the kind. -/
def NameDemand (shape : String → Option Scan) (kind : String) (children : List Node) : Prop :=
  ∀ scan, shape kind = some scan → ∀ c ∈ children, c.field = some "name" → scan.Makes c.chars

theorem nameDemand_nil (shape : String → Option Scan) (kind : String) :
    NameDemand shape kind [] := fun _ _ => nofun

theorem Node.Sound.name {shape : String → Option Scan} {n name : Node} {scan : Scan}
    (sound : n.Sound (NameDemand shape)) (named : n.child? "name" = some name)
    (shaped : shape n.kind = some scan) : scan.Makes name.chars := by
  refine sound.demanded scan shaped name (Node.mem_children_of_child? named) ?_
  have role := List.find?_some named
  exact beq_iff_eq.1 role

def Rule.isRoleless : Rule σ → Bool
  | .seq a b | .alt a b | .chain a b => a.isRoleless && b.isRoleless
  | .many a | .grow a | .inside a => a.isRoleless
  | .field _ _ => false
  | _ => true

/-- The nodes that a rule reads in a role have some property. -/
inductive Rule.Fills (g : Grammar σ) (role : String) (q : Node → Prop) : Rule σ → Prop
  | free {a : Rule σ} : a.isRoleless = true → Fills g role q a
  | seq {a b : Rule σ} : Fills g role q a → Fills g role q b → Fills g role q (.seq a b)
  | alt {a b : Rule σ} : Fills g role q a → Fills g role q b → Fills g role q (.alt a b)
  | many {a : Rule σ} : Fills g role q a → Fills g role q (.many a)
  | role {a : Rule σ} : a.isRoleless = true → (∀ {left c xs stop}, g.Derives left a c xs stop →
      ∀ x ∈ xs, x.isExtra = false → q { x with field := some role }) →
      Fills g role q (.field role a)
  | field {other : String} {a : Rule σ} : other ≠ role → Fills g role q a →
      Fills g role q (.field other a)

namespace Grammar

variable {g : Grammar σ} {scan : Scan} {fuel : Nat} {a : Rule σ} {c stop : Cursor}
  {left xs : List Node} {x : Node}

theorem offset_skip (c : Cursor) (n : Nat) :
    (c.skip n).place.offset = c.place.offset + min n c.rest.length := by
  induction n generalizing c with
  | zero => simp [Cursor.skip]
  | succ n ih =>
    rw [Cursor.skip]
    cases text : c.rest with
    | nil => simp
    | cons d ds =>
      have step : (c.place.next d).offset = c.place.offset + 1 := by
        unfold Place.next
        split <;> rfl
      simp only [ih, step, List.length_cons]
      omega

theorem chars_of_token {n : Nat} (start : x.start = c.place) (ends : x.stop = (c.skip n).place)
    (tail : x.tail = c.rest) : x.chars = c.rest.take n := by
  have length : x.stop.offset - x.start.offset = min n c.rest.length := by
    rw [start, ends, offset_skip]
    omega
  rw [Node.chars, length, tail]
  exact List.take_eq_take_min.symm

theorem forall_of_many {q : Node → Prop}
    (each : ∀ {c xs stop}, g.Derives [] a c xs stop → ∀ x ∈ xs, q x)
    (derived : g.Derives left (.many a) c xs stop) : ∀ x ∈ xs, q x := by
  generalize same : Rule.many a = b at derived
  induction derived with
  | manyNone => exact List.forall_mem_nil _
  | manyOne one =>
    cases same
    exact each one
  | manyMore one _ _ others =>
    cases same
    exact List.forall_mem_append.2 ⟨each one, others rfl⟩
  | _ => cases same

theorem kind_of_isExtra {kinds : List String}
    (comments : ∀ {depth cs n kind}, g.between depth cs = some (n, some kind) → kind ∈ kinds)
    (derived : g.Derives left a c xs stop)
    (before : ∀ x ∈ left, x.isExtra = true → x.kind ∈ kinds) :
    ∀ x ∈ xs, x.isExtra = true → x.kind ∈ kinds := by
  have nothing : ∀ x ∈ ([] : List Node), x.isExtra = true → x.kind ∈ kinds := List.forall_mem_nil _
  have lead (c : Cursor) : ∀ x ∈ (g.lead c).1, x.kind ∈ kinds := by
    refine lead_rec (motive := fun _ xs _ => ∀ x ∈ xs, x.kind ∈ kinds)
      (fun _ => List.forall_mem_nil _) (fun {_ _ _ kind _} found later => ?_) c
    cases kind with
    | none => exact later
    | some kind => exact List.forall_mem_cons.2 ⟨comments found, later⟩
  have token {extras : List Node} {c : Cursor} {kind : String} {isNamed : Bool} {length : Nat}
      (extra : ∀ x ∈ extras, x.kind ∈ kinds) :
      ∀ x ∈ (take extras c kind isNamed length).1, x.isExtra = true → x.kind ∈ kinds :=
    List.forall_mem_append.2 ⟨fun x member _ => extra x member,
      List.forall_mem_singleton.2 (fun proper => by cases proper)⟩
  have enclosed {c stop : Cursor} {kind : String} {ys : List Node}
      (inner : ∀ x ∈ ys, x.isExtra = true → x.kind ∈ kinds) :
      ∀ x ∈ c.enclose stop kind ys, x.isExtra = true → x.kind ∈ kinds := by
    intro x member extra
    obtain ⟨extras, t, parts, own, proper⟩ := enclose_eq_concat c stop kind ys
    rw [parts] at member
    rcases List.mem_append.1 member with outer | new
    · exact inner x (own x outer) extra
    · obtain rfl := List.mem_singleton.1 new
      rw [proper] at extra
      cases extra
  have assigned {role : String} {ys : List Node}
      (inner : ∀ x ∈ ys, x.isExtra = true → x.kind ∈ kinds) :
      ∀ x ∈ assignField role ys, x.isExtra = true → x.kind ∈ kinds := by
    intro x member extra
    rcases mem_assignField member with ⟨there, -⟩ | ⟨y, there, proper, rfl⟩
    · exact inner x there extra
    · rw [proper] at extra
      cases extra
  induction derived with
  | done | test | ahead | notAhead | move | manyNone => exact nothing
  | call _ ih | altLeft _ ih | altRight _ ih => exact ih before
  | seq _ _ first second => exact List.forall_mem_append.2 ⟨first nothing, second nothing⟩
  | manyOne _ ih | inside _ ih => exact ih nothing
  | manyMore _ _ first others => exact List.forall_mem_append.2 ⟨first nothing, others nothing⟩
  | sign | word | longest | leaf => exact token (lead _)
  | near | placed => exact token (List.forall_mem_nil _)
  | node _ _ ih => exact enclosed (ih nothing)
  | field _ ih => exact assigned (ih before)
  | chain _ _ base growth => exact growth (base nothing)
  | growNone => exact before
  | growMore _ _ one others => exact others (one before)
  | wrap _ ih =>
    exact enclosed (List.forall_mem_append.2 ⟨assigned before, ih nothing⟩)

section Roles

variable (rules : ∀ name, (g.rule name).isRoleless = true)

include rules

theorem field_of_isRoleless (derived : g.Derives left a c xs stop) (free : a.isRoleless = true)
    (before : ∀ x ∈ left, (x.isExtra = true → x.field = none) → x.field = none) :
    ∀ x ∈ xs, (x.isExtra = true → x.field = none) → x.field = none := by
  have nothing : ∀ x ∈ ([] : List Node), (x.isExtra = true → x.field = none) → x.field = none :=
    List.forall_mem_nil _
  induction derived with
  | done | test | ahead | notAhead | move | manyNone => exact nothing
  | call _ ih => exact ih (rules _) before
  | seq _ _ first second =>
    obtain ⟨one, other⟩ := Bool.and_eq_true_iff.1 free
    exact List.forall_mem_append.2 ⟨first one nothing, second other nothing⟩
  | altLeft _ ih => exact ih (Bool.and_eq_true_iff.1 free).1 before
  | altRight _ ih => exact ih (Bool.and_eq_true_iff.1 free).2 before
  | manyOne _ ih | inside _ ih => exact ih free nothing
  | manyMore _ _ first others =>
    exact List.forall_mem_append.2 ⟨first free nothing, others free nothing⟩
  | sign | word | longest | leaf =>
    exact fun x member _ => field_of_take (fun y extra => (comment_of_lead extra).2.1) member
  | near | placed => exact fun x member _ => field_of_take (List.forall_mem_nil _) member
  | node | wrap => exact fun x member tidy => field_of_enclose member tidy
  | field => cases free
  | chain _ _ base growth =>
    obtain ⟨one, other⟩ := Bool.and_eq_true_iff.1 free
    exact growth other (base one nothing)
  | growNone => exact before
  | growMore _ _ one others => exact others free (one free before)

theorem of_fills {role : String} {q : Node → Prop} (fills : a.Fills g role q)
    (derived : g.Derives [] a c xs stop) :
    ∀ x ∈ xs, (x.isExtra = true → x.field = none) → x.field = some role → q x := by
  have free {a : Rule σ} {c stop : Cursor} {xs : List Node} (derived : g.Derives [] a c xs stop)
      (free : a.isRoleless = true) (role : String) :
      ∀ x ∈ xs, (x.isExtra = true → x.field = none) → x.field ≠ some role := by
    intro x member tidy filled
    rw [field_of_isRoleless rules derived free (List.forall_mem_nil _) x member tidy] at filled
    cases filled
  induction fills generalizing c xs stop with
  | free plain =>
    exact fun x member tidy filled => absurd filled (free derived plain role x member tidy)
  | seq _ _ one other =>
    cases derived with
    | seq first second => exact List.forall_mem_append.2 ⟨one first, other second⟩
  | alt _ _ one other =>
    cases derived with
    | altLeft inner => exact one inner
    | altRight inner => exact other inner
  | many _ each => exact forall_of_many each derived
  | role plain own =>
    cases derived with
    | field inner =>
      intro x member tidy filled
      rcases mem_assignField member with ⟨there, -⟩ | ⟨y, there, proper, rfl⟩
      · exact absurd filled (free inner plain role x there tidy)
      · exact own inner y there proper
  | field apart _ ih =>
    cases derived with
    | field inner =>
      intro x member tidy filled
      rcases mem_assignField member with ⟨there, -⟩ | ⟨y, there, proper, rfl⟩
      · exact ih inner x there tidy filled
      · exact absurd (Option.some.inj filled) apart

end Roles

theorem fills_leaf {role kind : String} {q : Node → Prop}
    (token : ∀ x : Node, x.kind = kind → scan.Makes x.chars → q x) :
    (Rule.field role (.leaf kind scan)).Fills g role q := by
  refine .role rfl (fun derived x member proper => ?_)
  cases derived with
  | leaf fits =>
    rcases List.mem_append.1 member with comment | alone
    · rw [(comment_of_lead comment).1] at proper
      cases proper
    · obtain rfl := List.mem_singleton.1 alone
      exact token _ rfl ⟨_, _, fits, chars_of_token rfl rfl rfl⟩

theorem fills_node {role kind : String} {q : Node → Prop} {name : σ}
    (rule : g.rule name = .node kind a) (node : ∀ x : Node, x.kind = kind → q x) :
    (Rule.field role (.call name)).Fills g role q := by
  refine .role rfl (fun derived x member proper => ?_)
  cases derived with
  | call derived =>
    rw [rule] at derived
    cases derived with
    | node =>
      have same := kind_of_enclose member proper
      exact node _ same

end Grammar

end CodeOutline.Syntax
