import CodeOutline.Token.Basic

/-!
The display order of members: by visibility, static before instance, then by name. Members
with equal keys stay in source order.
-/

set_option autoImplicit false

namespace CodeOutline

/-- What the display order reads of a token. -/
class Member (α : Type) where
  name : α → String
  visibility : α → Visibility := fun _ => .pub
  isStatic : α → Bool := fun _ => false

instance : Member VarToken := ⟨(·.name), (·.visibility), (·.isStatic)⟩
instance : Member PropertyToken := ⟨(·.name), (·.visibility), (·.isStatic)⟩
instance : Member AccessorToken := ⟨(·.name), (·.visibility), (·.isStatic)⟩
instance : Member MethodToken := ⟨(·.name), (·.visibility), (·.isStatic)⟩
instance : Member EntityToken where
  name := (·.name)
  visibility := (·.visibility)
instance : Member ImportToken where
  name := (·.name)

namespace Member

variable {α : Type} [Member α]

/-- The first member may stand before the second one. -/
def le (a b : α) : Bool :=
  let ra := (visibility a).rank
  let rb := (visibility b).rank
  if ra < rb then true
  else if rb < ra then false
  else match isStatic a, isStatic b with
    | true, false => true
    | false, true => false
    | _, _ => decide (name a ≤ name b)

/-- The members in display order. -/
def sort (members : List α) : List α := members.mergeSort le

end Member

end CodeOutline
