import CodeOutline.Text.Comment
import CodeOutline.Token.Builder

/-!
The outline of home automation items: each line without comments that begins with the type
of an item and its name declares one.
-/

set_option autoImplicit false

namespace CodeOutline.Analysis.Items

def itemTypes : List String :=
  ["Color", "Contact", "DateTime", "Dimmer", "Group", "Image", "Location", "Number", "Player",
    "Rollershutter", "String", "Switch"]

def isItemType (word : String) : Bool :=
  itemTypes.contains (String.ofList (word.toList.takeWhile (· != ':')))

def item? (line : String) : Option (String × String) :=
  match Text.words line with
  | type :: name :: _ => if isItemType type then some (type, name) else none
  | _ => none

/-- The outline of a document. -/
def tree (text : String) : TokenTree :=
  let lines := Text.lines (String.ofList (Text.stripComments text.toList))
  (lines.filterMap item?).foldl (fun t (type, name) =>
    t.addItem { name, span := Text.firstOccurrence? text name, type := some type }) .empty

end CodeOutline.Analysis.Items
