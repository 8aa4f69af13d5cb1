import CodeOutline.Text.Search

/-!
Names with the namespace they belong to. Two written forms carry a namespace, before the
name with a separator or after it behind a lone colon, and one reader understands both.
-/

set_option autoImplicit false

namespace CodeOutline

/-- Where the namespace goes in a displayed name. -/
inductive NamespacePosition
  | full | suffix | none
deriving DecidableEq, Repr, Inhabited

def NamespacePosition.word : NamespacePosition → String
  | .full => "full"
  | .suffix => "suffix"
  | .none => "none"

namespace Name

open Text

/-- The displayed form of a name; an empty namespace counts as no namespace. -/
def qualify (name : String) (space : Option String) (separator : String)
    (position : NamespacePosition) : String :=
  match space, position with
  | some ns, .full => if ns.isEmpty then name else ns ++ separator ++ name
  | some ns, .suffix => if ns.isEmpty then name else name ++ ": " ++ ns
  | _, _ => name

/-- The text around the first colon with no colon at either side; `afterColon` says
whether the character before was a colon. -/
def cutLoneColon? (afterColon : Bool) : List Char → Option (List Char × List Char)
  | [] => none
  | ':' :: rest =>
    let alone := !afterColon && (match rest with | ':' :: _ => false | _ => true)
    if alone then some ([], rest)
    else (cutLoneColon? true rest).map (fun (before, after) => (':' :: before, after))
  | c :: rest => (cutLoneColon? false rest).map (fun (before, after) => (c :: before, after))

def nonempty? (cs : List Char) : Option String :=
  if cs.isEmpty then none else some (String.ofList cs)

/-- The simple name and the namespace of a written name. A lone colon comes first: what
follows it is the namespace. Else the last separator divides the two. -/
def split (name : String) (separator : String) : String × Option String :=
  match cutLoneColon? false name.toList with
  | some (before, after) => (String.ofList (trimChars before), nonempty? (trimChars after))
  | none =>
    if separator.isEmpty then (name, none)
    else match cutLast? separator.toList name.toList with
      | some (before, after) => (String.ofList after, nonempty? before)
      | none => (name, none)

def simple (name : String) (separator : String) : String := (split name separator).1

/-- The simple name and namespace asked for: a namespace in the name wins over the other
one, and a blank namespace is none. -/
def splitTarget (target separator : String) (fallback : Option String) :
    String × Option String :=
  let (name, space) := split (trim target) separator
  (name, (space.orElse (fun _ => fallback)).bind (fun ns => nonempty? (trimChars ns.toList)))

end Name

end CodeOutline
