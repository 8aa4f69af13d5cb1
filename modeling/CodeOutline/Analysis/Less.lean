import CodeOutline.Syntax.Node
import CodeOutline.Text.Search
import CodeOutline.Token.Builder

/-!
The outline of style sheets with variables and nested rules, read statement by statement.
Variables are declared at top level; rule sets at top level show their own declarations, and
the calls of mixins among them. Other blocks are passed over.
-/

set_option autoImplicit false

namespace CodeOutline.Analysis.Less

open Syntax (Place)

/-! ## Comments -/

/-- Where a character stands: in plain text inside so many parentheses, or in a quoted text,
behind a backslash or not. -/
inductive Context
  | plain (depth : Nat)
  | quoted (mark : Char) (isEscaped : Bool) (depth : Nat)
deriving DecidableEq, Repr

/-- The context behind a character that begins no comment. -/
def Context.next (s : Context) (c : Char) : Context :=
  match s with
  | .plain depth =>
    if c = '"' || c = '\'' then .quoted c false depth
    else if c = '(' then .plain (depth + 1)
    else if c = ')' then .plain (depth - 1)
    else s
  | .quoted mark isEscaped depth =>
    if isEscaped then .quoted mark false depth
    else if c = '\\' then .quoted mark true depth
    else if c = mark then .plain depth
    else s

/-- The length of the comment at the beginning of a text. Line comments do not begin inside
parentheses, where two slashes belong to an address. -/
def commentLength? (depth : Nat) (cs : List Char) : Option Nat :=
  match cs with
  | '/' :: '*' :: rest =>
    match Text.cutFirst? ['*', '/'] rest with
    | some (before, _) => some (before.length + 4)
    | none => some cs.length
  | '/' :: '/' :: _ => if depth = 0 then some (cs.takeWhile (· != '\n')).length else none
  | _ => none

def blanked (c : Char) : List Char := if c = '\n' then [c] else List.replicate c.utf8Size ' '

def blankFrom (s : Context) (skip : Nat) : List Char → List Char
  | [] => []
  | c :: cs =>
    match skip with
    | n + 1 => blanked c ++ blankFrom s n cs
    | 0 =>
      let length? := match s with
        | .plain depth => commentLength? depth (c :: cs)
        | .quoted _ _ _ => none
      match length? with
      | some (n + 1) => blanked c ++ blankFrom s n cs
      | _ => c :: blankFrom (s.next c) 0 cs

/-- The text with spaces in place of comments, of the same length in bytes. -/
def blankComments (cs : List Char) : List Char := blankFrom (.plain 0) 0 cs

/-! ## Statements -/

/-- What ends a statement. -/
inductive Ending
  | semicolon | opening | closing | eof
deriving DecidableEq, Repr

structure Statement where
  text : List Char
  start : Place
  ending : Ending
deriving Repr

/-- Where the scan of a statement stands: in plain text, behind an at sign or not, in a
quoted text, or between the braces of an interpolation. -/
inductive ScanState
  | plain (isAfterAt : Bool)
  | quoted (mark : Char) (isEscaped : Bool)
  | interpolated
deriving DecidableEq, Repr

def ending? (c : Char) : Option Ending :=
  match c with
  | ';' => some .semicolon
  | '\x7b' => some .opening
  | '\x7d' => some .closing
  | _ => none

/-- The state behind a character in a quoted text or an interpolation. -/
def ScanState.inner (s : ScanState) (c : Char) : ScanState :=
  match s with
  | .quoted mark isEscaped =>
    if isEscaped then .quoted mark false
    else if c = '\\' then .quoted mark true
    else if c = mark then .plain false
    else s
  | .interpolated => if c = '\x7d' then .plain false else s
  | .plain _ => .plain (c == '@')

/-- The statements of a text from a place on. `text` holds what has been read of the first
one, last character first. Nothing ends a statement inside quotes, parentheses or an
interpolation. -/
def statementsFrom (s : ScanState) (depth : Nat) (start place : Place) (text : List Char) :
    List Char → List Statement
  | [] => [{ text := text.reverse, start, ending := .eof }]
  | c :: cs =>
    let behind := place.next c
    let go (s : ScanState) (depth : Nat) : List Statement :=
      statementsFrom s depth start behind (c :: text) cs
    match s with
    | .plain isAfterAt =>
      if c = '"' || c = '\'' then go (.quoted c false) depth
      else if c = '(' then go (.plain false) (depth + 1)
      else if c = ')' then go (.plain false) (depth - 1)
      else if c = '\x7b' && isAfterAt then go .interpolated depth
      else
        match if depth = 0 then ending? c else none with
        | some ending =>
          { text := text.reverse, start, ending } ::
            statementsFrom (.plain false) 0 behind behind [] cs
        | none => go (s.inner c) depth
    | s => go (s.inner c) depth

/-- The statements of a text without comments; the last one is ended by the end. -/
def statements (cs : List Char) : List Statement :=
  statementsFrom (.plain false) 0 .origin .origin [] cs

/-! ## Declarations -/

def mixinCall (trimmed : List Char) : List Char × String :=
  match Text.cutFirst? ['('] trimmed with
  | some (before, rest) =>
    let inner := Text.trimRight rest
    let inner := (Text.dropEnd? [')'] inner).getD inner
    (Text.trimRight before, "(" ++ String.ofList (Text.trimChars inner) ++ ")")
  | none => (trimmed, "()")

def nameAndValue? (trimmed : List Char) : Option (List Char × String) :=
  match trimmed with
  | [] => none
  | '.' :: _ | '#' :: _ => some (mixinCall trimmed)
  | _ => (Text.cutFirst? [':'] trimmed).map (fun (name, value) =>
      (Text.trimChars name, Text.collapse (String.ofList value)))

/-- The declaration that a statement makes. -/
def declaration? (s : Statement) : Option VarToken :=
  (nameAndValue? (Text.trimChars s.text)).map (fun (name, value) =>
    let start := (s.text.takeWhile Text.isBlank).foldl Place.next s.start
    { name := String.ofList name, value := some value
      span := some (.onLine start.line start.column (Text.byteCount name)) })

def isMixinDefinition (heading : List Char) : Bool :=
  match heading with
  | '.' :: _ | '#' :: _ => heading.contains '('
  | _ => false

/-- The selectors of a heading with a comma and a space between two of them. -/
def selectorKey (heading : List Char) : String :=
  ", ".intercalate (((Text.splitChars (· == ',') heading).map
    (fun s => Text.collapse (String.ofList s))).filter (fun s => !s.isEmpty))

/-! ## Blocks -/

/-- Where the reading stands: at top level, in a rule set with the declarations read so far,
or so many blocks deep in what is passed over, in a rule set or not. -/
inductive Level
  | top
  | body (selector : String) (declarations : List VarToken)
  | passing (rule : Option (String × List VarToken)) (depth : Nat)

def Level.resume : Option (String × List VarToken) → Level
  | some (selector, declarations) => .body selector declarations
  | none => .top

def step (level : Level) (t : TokenTree) (s : Statement) : Except Place (Level × TokenTree) :=
  let trimmed := Text.trimChars s.text
  match level, s.ending with
  | .top, .eof => .ok (.top, t)
  | .top, .closing => .error s.start
  | .top, .semicolon =>
    match if trimmed.head? = some '@' then declaration? s else none with
    | some v => .ok (.top, t.addVariable { v with isStatic := true })
    | none => .ok (.top, t)
  | .top, .opening =>
    if trimmed.head? = some '@' || isMixinDefinition trimmed then .ok (.passing none 0, t)
    else .ok (.body (selectorKey trimmed) [], t)
  | .body selector ds, .semicolon => .ok (.body selector (ds ++ (declaration? s).toList), t)
  | .body selector ds, .closing =>
    .ok (.top, t.addDeclarations selector (ds ++ (declaration? s).toList))
  | .body selector ds, .opening => .ok (.passing (some (selector, ds)) 0, t)
  | .passing rule depth, .opening => .ok (.passing rule (depth + 1), t)
  | .passing rule 0, .closing => .ok (Level.resume rule, t)
  | .passing rule (depth + 1), .closing => .ok (.passing rule depth, t)
  | .passing rule depth, .semicolon => .ok (.passing rule depth, t)
  | .body _ _, .eof => .error s.start
  | .passing _ _, .eof => .error s.start

def walk (level : Level) (t : TokenTree) : List Statement → Except Place TokenTree
  | [] => .ok t
  | s :: rest => do
    let (level, t) ← step level t s
    walk level t rest

/-- The outline of a document, or the reason why there is none. -/
def tree (text : String) : Except String TokenTree :=
  match walk .top .empty (statements (blankComments text.toList)) with
  | .ok t => .ok t
  | .error place =>
    .error ("unbalanced braces near " ++ (Span.mk place.point place.point).display)

end CodeOutline.Analysis.Less
