import CodeOutline.Grammar.Yaml
import CodeOutline.Yaml.Value

/-!
The value of a YAML document. Anchors name values for the aliases behind them, a later anchor
of one name before an earlier.
-/

set_option autoImplicit false

namespace CodeOutline.Yaml

open Syntax (Node)

abbrev Anchors := List (String × Value)

private def inner (cs : List Char) : List Char := (cs.drop 1).dropLast

private def nameOf (n : Node) : String := String.ofList (n.chars.drop 1)

private def scalar? (n : Node) : Option Value :=
  match n.kind with
  | "empty" => some .blank
  | "plain" => some (.scalar (plainText n.chars) true none)
  | "single" => some (.scalar (singleText (inner n.chars)) false none)
  | "double" => (doubleText? (inner n.chars)).map (.scalar · false none)
  | _ => none

private def lineEndCount (n : Node) : Nat := (n.chars.filter (· == '\n')).length

private def blockLines : List Node → List BlockLine
  | [] => []
  | n :: rest =>
    if n.kind = "line" then
      ⟨n.chars, ((rest.head?.filter (·.kind == "ends")).map lineEndCount).getD 0⟩ :: blockLines rest
    else blockLines rest

private def linesValue? (n : Node) : Option Value := do
  let header ← (n.first? "header").bind (fun h => Grammar.Yaml.header? h.chars)
  let leading := ((n.first? "ends").map lineEndCount).getD 0
  some (.scalar (blockText header (leading - 1) (blockLines n.named)) false none)

private def isProperty (n : Node) : Bool := n.kind == "anchor" || n.kind == "tag"

mutual

def valueOf? (anchors : Anchors) (n : Node) : Option (Value × Anchors) :=
  match n.kind with
  | "alias" => (anchors.lookup (nameOf n)).map (·, anchors)
  | "lines" => (linesValue? n).map (·, anchors)
  | "list" =>
    let step (found : List Value × Anchors) (item : { x // x ∈ n.named }) :
        Option (List Value × Anchors) :=
      have : sizeOf item.1 < sizeOf n := Node.sizeOf_of_mem_named item.2
      if item.1.kind = "dash" then some found
      else if item.1.kind = "pair" then do
        let (entry, anchors) ← entryOf? found.2 item.1
        some (.map [entry] :: found.1, anchors)
      else do
        let (value, anchors) ← valueOf? found.2 item.1
        some (value :: found.1, anchors)
    (n.named.attach.foldlM step ([], anchors)).map
      (fun (values, anchors) => (.list values.reverse, anchors))
  | "map" =>
    let step (found : List (Value × Value) × Anchors) (item : { x // x ∈ n.named }) :
        Option (List (Value × Value) × Anchors) :=
      have : sizeOf item.1 < sizeOf n := Node.sizeOf_of_mem_named item.2
      if item.1.kind = "pair" then do
        let (entry, anchors) ← entryOf? found.2 item.1
        some (entry :: found.1, anchors)
      else do
        let (key, anchors) ← valueOf? found.2 item.1
        some ((key, .blank) :: found.1, anchors)
    (n.named.attach.foldlM step ([], anchors)).map
      (fun (entries, anchors) => (.map entries.reverse, anchors))
  | "value" =>
    let tag := (n.first? "tag").map Node.text
    let named (found : Value × Anchors) : Value × Anchors :=
      let value := found.1.tagged tag
      match n.first? "anchor" with
      | some anchor => (value, (nameOf anchor, value) :: found.2)
      | none => (value, found.2)
    match hc : n.named.find? (fun c => !isProperty c) with
    | some content =>
      have : sizeOf content < sizeOf n := Node.sizeOf_of_mem_named (List.mem_of_find?_eq_some hc)
      (valueOf? anchors content).map named
    | none => some (named (.blank, anchors))
  | _ => (scalar? n).map (·, anchors)
termination_by sizeOf n

def entryOf? (anchors : Anchors) (n : Node) : Option ((Value × Value) × Anchors) :=
  match hk : n.child? "key", hv : n.child? "value" with
  | some key, some value =>
    have : sizeOf key < sizeOf n := Node.sizeOf_of_child? hk
    have : sizeOf value < sizeOf n := Node.sizeOf_of_child? hv
    if key.kind = "pair" then none
    else do
      let (key, anchors) ← valueOf? anchors key
      let (value, anchors) ← valueOf? anchors value
      some ((key, value), anchors)
  | _, _ => none
termination_by sizeOf n

end

def document? (text : String) : Option Value := do
  let root ← Grammar.Yaml.read? text.toList
  match root.named.find? (fun n => n.kind != "marker" && n.kind != "directive") with
  | some n => (valueOf? [] n).map (·.1)
  | none => some .blank

end CodeOutline.Yaml
