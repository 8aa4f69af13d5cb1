import CodeOutline.Outline.Projection
import CodeOutline.Report.Style

/-!
An outline as indented lines. Every node stands on a line of its own with its children below,
whether it starts open or not.
-/

set_option autoImplicit false

namespace CodeOutline.Report

open Outline (Node Branch Collapse NodeKind)

/-- The sign before a label. -/
def sign : Collapse → String
  | .none => " "
  | .collapsed => "▸"
  | .expanded => "▾"

private def kindStyle (n : Node) : Style :=
  match n.kind with
  | .section | .strict => .bold
  | .interface | .trait | .class => .strong .cyan
  | .media | .selector => .colored .magenta
  | .object | .array => .colored .blue
  | _ =>
    match n.visibility with
    | .pub => {}
    | .prot => .colored .yellow
    | .priv => .colored .red

def labelStyle (n : Node) : Style :=
  { kindStyle n with isItalic := n.isStatic }

def nodeLine (hasColors : Bool) (depth : Nat) (n : Node) : String :=
  let indent := String.ofList (List.replicate (2 * (depth + 1)) ' ')
  let place := match n.span with
    | some span => "  " ++ Style.dim.paint hasColors span.display
    | none => ""
  indent ++ sign n.collapse ++ " " ++ (labelStyle n).paint hasColors n.label ++ place

mutual

def branchLines (hasColors : Bool) (depth : Nat) : Branch → List String
  | .mk n below => nodeLine hasColors depth n :: branchesLines hasColors (depth + 1) below

def branchesLines (hasColors : Bool) (depth : Nat) : List Branch → List String
  | [] => []
  | b :: bs => branchLines hasColors depth b ++ branchesLines hasColors depth bs

end

/-- The lines of a tree. An empty tree has a line that says so. -/
def treeLines (hasColors : Bool) (m : Markers) (t : TokenTree) : List String :=
  if t.isEmpty then ["    " ++ Style.dim.paint hasColors "(empty)"]
  else branchesLines hasColors 1 (Outline.expand m t)

end CodeOutline.Report
