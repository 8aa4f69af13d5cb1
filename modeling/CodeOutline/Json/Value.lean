/-!
Values of a data exchange format: null, truth values, counts, strings, lists, and objects
whose members keep their order.
-/

set_option autoImplicit false

namespace CodeOutline.Json

inductive Value
  | null
  | bool (b : Bool)
  | num (n : Nat)
  | str (s : String)
  | arr (items : List Value)
  | obj (members : List (String × Value))
deriving Repr, Inhabited, BEq

namespace Value

def field? (key : String) : Value → Option Value
  | .obj members => (members.find? (fun m => m.1 == key)).map (·.2)
  | _ => none

def str? : Value → Option String
  | .str s => some s
  | _ => none

def bool? : Value → Option Bool
  | .bool b => some b
  | _ => none

def num? : Value → Option Nat
  | .num n => some n
  | _ => none

def items? : Value → Option (List Value)
  | .arr items => some items
  | _ => none

def ofFields (fields : List (Option (String × Value))) : Value := .obj (fields.filterMap id)

end Value

private def hexDigit (n : Nat) : Char :=
  if n < 10 then Char.ofNat (48 + n) else Char.ofNat (87 + n)

def escapeChar (c : Char) : List Char :=
  match c with
  | '"' => ['\\', '"']
  | '\\' => ['\\', '\\']
  | '\n' => ['\\', 'n']
  | '\r' => ['\\', 'r']
  | '\t' => ['\\', 't']
  | c =>
    if c.toNat = 8 then ['\\', 'b']
    else if c.toNat = 12 then ['\\', 'f']
    else if c.toNat < 32 then ['\\', 'u', '0', '0', hexDigit (c.toNat / 16), hexDigit (c.toNat % 16)]
    else [c]

def quote (s : String) : String :=
  String.ofList ('"' :: (s.toList.flatMap escapeChar ++ ['"']))

private def indentBy (depth : Nat) : String := String.ofList (List.replicate (2 * depth) ' ')

private def bracketed (opening closing : String) (depth : Nat) (parts : List String) : String :=
  if parts.isEmpty then opening ++ closing
  else
    let inner := parts.map (fun part => indentBy (depth + 1) ++ part)
    opening ++ "\n" ++ ",\n".intercalate inner ++ "\n" ++ indentBy depth ++ closing

mutual

def Value.pretty (depth : Nat) : Value → String
  | .null => "null"
  | .bool b => if b then "true" else "false"
  | .num n => toString n
  | .str s => quote s
  | .arr items => bracketed "[" "]" depth (prettyItems (depth + 1) items)
  | .obj members => bracketed "\x7b" "\x7d" depth (prettyMembers (depth + 1) members)

private def prettyItems (depth : Nat) : List Value → List String
  | [] => []
  | v :: vs => v.pretty depth :: prettyItems depth vs

private def prettyMembers (depth : Nat) : List (String × Value) → List String
  | [] => []
  | (k, v) :: ms => (quote k ++ ": " ++ v.pretty depth) :: prettyMembers depth ms

end

end CodeOutline.Json
