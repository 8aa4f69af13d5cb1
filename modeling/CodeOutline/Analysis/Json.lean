import CodeOutline.Grammar.Json
import CodeOutline.Token.Builder

/-!
The outline of a JSON document: its first value, with members and elements nested.
-/

set_option autoImplicit false

namespace CodeOutline.Analysis.Json

open Syntax

def kindOf (n : Node) : DataKind :=
  match n.kind with
  | "object" => .object
  | "array" => .array
  | _ => .value

/-- The token of a value: members take their key without quotes as name, elements their
index, and scalars keep their source text. -/
def valueToken (name : String) (n : Node) : DataToken :=
  let here : DataToken := { name, span := some n.span, kind := kindOf n }
  match n.kind with
  | "object" =>
    let members := n.named.attach.filterMap (fun ⟨pair, hp⟩ =>
      if pair.kind = "pair" then
        match hv : pair.child? "value" with
        | some member =>
          have : sizeOf member < sizeOf n :=
            Nat.lt_trans (Node.sizeOf_of_child? hv) (Node.sizeOf_of_mem_named hp)
          some (valueToken (((pair.child? "key").map (Text.unquote ·.text)).getD "") member)
        | none => none
      else none)
    { here with children := members }
  | "array" =>
    let elements := n.named.attach.filter (fun e => e.1.kind != "comment")
    { here with children := elements.mapIdx (fun index ⟨element, he⟩ =>
        have : sizeOf element < sizeOf n := Node.sizeOf_of_mem_named he
        valueToken (toString index) element) }
  | _ => { here with value := some n.text }
termination_by sizeOf n

/-- The outline of a document, nothing when it is not well formed. -/
def tree? (text : String) : Option TokenTree :=
  (Grammar.Json.read? text.toList).map (fun root =>
    match root.named.find? (·.kind != "comment") with
    | some value => TokenTree.empty.setData (valueToken "" value)
    | none => TokenTree.empty)

end CodeOutline.Analysis.Json
