/-!
Styled text for terminals. A style is switched on before the text and off behind it, and a
text that switches it off itself gets it back at once.
-/

set_option autoImplicit false

namespace CodeOutline.Report

inductive Color
  | red | green | yellow | blue | magenta | cyan
deriving DecidableEq, Repr

/-- The code of the color. -/
def Color.code : Color → String
  | .red => "31"
  | .green => "32"
  | .yellow => "33"
  | .blue => "34"
  | .magenta => "35"
  | .cyan => "36"

structure Style where
  color : Option Color := none
  isBold : Bool := false
  isDim : Bool := false
  isItalic : Bool := false
deriving DecidableEq, Repr

namespace Style

def codes (s : Style) : List String :=
  (if s.isBold then ["1"] else []) ++ (if s.isDim then ["2"] else []) ++
    (if s.isItalic then ["3"] else []) ++ s.color.toList.map Color.code

def bold : Style := { isBold := true }

def dim : Style := { isDim := true }

def colored (c : Color) : Style := { color := some c }

def strong (c : Color) : Style := { color := some c, isBold := true }

def reset : List Char := ['\x1b', '[', '0', 'm']

private def resume (again : List Char) : List Char → List Char → List Char
  | _, [] => []
  | seen, c :: cs =>
    let seen := (c :: seen).take reset.length
    if seen.reverse = reset then c :: (again ++ resume again [] cs)
    else c :: resume again seen cs

def paint (s : Style) (hasColors : Bool) (text : String) : String :=
  if hasColors && !s.codes.isEmpty then
    let on := ("\x1b[" ++ ";".intercalate s.codes ++ "m").toList
    String.ofList (on ++ resume on [] text.toList ++ reset)
  else text

end Style

end CodeOutline.Report
