import CodeOutline.Syntax.Node
import CodeOutline.Text.Search

/-!
Grammars as data and the one reader that follows them. A rule says which tokens follow
each other and which nodes they make; the first alternative that fits is taken. Blanks and
comments may stand before every token; a comment becomes an extra child of the innermost
node that has begun.
-/

set_option autoImplicit false

namespace CodeOutline.Syntax

/-- How far the reading has come: the place, the text from there on, how many brackets
enclose the place, and the indentations of the open blocks. -/
structure Cursor where
  place : Place
  rest : List Char
  depth : Nat := 0
  indents : List Nat := []
deriving Inhabited

namespace Cursor

def start (text : List Char) : Cursor := { place := .origin, rest := text }

def skip (c : Cursor) : Nat → Cursor
  | 0 => c
  | n + 1 =>
    match c.rest with
    | [] => c
    | d :: ds => ({ c with place := c.place.next d, rest := ds } : Cursor).skip n

end Cursor

abbrev Scan := List Char → Option Nat

/-- A rule over the rule names `σ`. -/
inductive Rule (σ : Type)
  /-- Takes nothing. -/
  | done
  /-- Never fits. -/
  | never
  /-- The rule of that name. -/
  | call (name : σ)
  /-- One rule after the other. -/
  | seq (a b : Rule σ)
  /-- The first rule, or else the second. -/
  | alt (a b : Rule σ)
  /-- As often as it fits. -/
  | many (a : Rule σ)
  /-- Punctuation. -/
  | sign (s : String)
  /-- A keyword: no further word character follows. -/
  | word (s : String)
  /-- The longest of the known signs, if it is among the wanted ones. -/
  | longest (known wanted : List String)
  /-- A named token. -/
  | leaf (kind : String) (scan : Scan)
  /-- A named token with nothing in front of it. -/
  | near (kind : String) (scan : Scan)
  /-- A named token with nothing in front of it, whose shape depends on the place. -/
  | placed (kind : String) (scan : Cursor → Scan)
  /-- A node of that kind around what the rule reads. -/
  | node (kind : String) (a : Rule σ)
  /-- The role of the nodes that the rule reads. -/
  | field (name : String) (a : Rule σ)
  /-- A rule and what may grow around its node. -/
  | chain (base step : Rule σ)
  /-- More and more growth around the nodes read so far. -/
  | grow (step : Rule σ)
  /-- A node around the nodes read so far, in the given role, and what the rule reads. -/
  | wrap (kind role : String) (a : Rule σ)
  /-- The rule would fit here; nothing is taken. -/
  | ahead (a : Rule σ)
  /-- The rule would not fit here. -/
  | notAhead (a : Rule σ)
  /-- A condition on the cursor before and after the blanks and comments that come next. -/
  | test (p : Cursor → Cursor → Bool)
  /-- A move of the cursor that makes no node. -/
  | move (f : Cursor → Cursor → Option Cursor)
  /-- Inside brackets. -/
  | inside (a : Rule σ)

/-- A grammar: its rules by name, the characters of words, whether keywords are read in any
spelling of capitals, and what may stand between tokens, with a kind when it is a comment. -/
structure Grammar (σ : Type) where
  rule : σ → Rule σ
  isWordChar : Char → Bool
  foldsCase : Bool := false
  between : Nat → List Char → Option (Nat × Option String)

namespace Rule

variable {σ : Type}

def sequence : List (Rule σ) → Rule σ
  | [] => .done
  | [a] => a
  | a :: rest => .seq a (sequence rest)

def choice : List (Rule σ) → Rule σ
  | [] => .never
  | [a] => a
  | a :: rest => .alt a (choice rest)

def opt (a : Rule σ) : Rule σ := .alt a .done

def many1 (a : Rule σ) : Rule σ := .seq a (.many a)

def separated (separator a : Rule σ) : Rule σ := .seq a (.many (.seq separator a))

def commas (a : Rule σ) : Rule σ := separated (.sign ",") a

def commas0 (a : Rule σ) : Rule σ := opt (commas a)

def commasEnd (a : Rule σ) : Rule σ := .seq (commas a) (opt (.sign ","))

def tight : Rule σ := .test (fun before after => before.place.offset == after.place.offset)

def sameLine : Rule σ := .test (fun before after => before.place.line == after.place.line)

def group (self token : Rule σ) : Rule σ :=
  let within (a b : String) : Rule σ := .node "group" (sequence [.sign a, .many self, .sign b])
  choice [within "(" ")", within "[" "]", within "\x7b" "\x7d", token]

def words (ws : List String) : Rule σ := choice (ws.map .word)

def signs (ss : List String) : Rule σ := choice (ss.map .sign)

end Rule

def splitExtras (nodes : List Node) : List Node × List Node :=
  (nodes.takeWhile (·.isExtra), nodes.dropWhile (·.isExtra))

def Cursor.enclose (c stop : Cursor) (kind : String) (nodes : List Node) : List Node :=
  let (extras, inner) := splitExtras nodes
  match inner, inner.getLast? with
  | first :: _, some last =>
    extras ++ [{ kind, start := first.start, stop := last.stop, tail := first.tail,
                 children := inner }]
  | _, _ => extras ++ [{ kind, start := c.place, stop := stop.place, tail := c.rest }]

def assignField (name : String) (nodes : List Node) : List Node :=
  nodes.map (fun n =>
    if n.isExtra || n.field.isSome then n else { n with field := some name })

namespace Grammar

variable {σ : Type} (g : Grammar σ)

/-- What stands between two tokens: its comments, and the cursor behind it. Of the text that
bounds the number of pieces, one character is given up for each. -/
def pass : List Char → Cursor → List Node × Cursor
  | [], c => ([], c)
  | _ :: fuel, c =>
    match g.between c.depth c.rest with
    | none => ([], c)
    | some (0, _) => ([], c)
    | some (length, kind) =>
      let stop := c.skip length
      let (more, last) := pass fuel stop
      match kind with
      | none => (more, last)
      | some kind =>
        ({ kind, isExtra := true, start := c.place, stop := stop.place, tail := c.rest } :: more,
          last)

/-- All that stands before the next token. -/
def lead (c : Cursor) : List Node × Cursor :=
  match g.between c.depth c.rest with
  | none => ([], c)
  | some _ => g.pass c.rest c

/-- A token of a known length behind what stands before it. -/
def take (extras : List Node) (c : Cursor) (kind : String) (isNamed : Bool) (length : Nat) :
    List Node × Cursor :=
  let stop := c.skip length
  (extras ++ [{ kind, isNamed, start := c.place, stop := stop.place, tail := c.rest }], stop)

def dropWord? (w : List Char) (cs : List Char) : Option (List Char) :=
  match w, cs with
  | [], cs => some cs
  | _ :: _, [] => none
  | a :: as, b :: bs =>
    if a = b || (g.foldsCase && a = b.toLower) then dropWord? as bs else none

def longestSign? (known : List String) (cs : List Char) : Option String :=
  known.foldl (fun best s =>
    match Text.dropStart? s.toList cs with
    | none => best
    | some _ =>
      match best with
      | none => some s
      | some b => if b.length < s.length then some s else best) none

/-- What a rule reads at a cursor: the nodes and the cursor behind them. The number bounds
how deep rules stand inside each other; `left` are the nodes that growth starts from. -/
def run : Nat → List Node → Rule σ → Cursor → Option (List Node × Cursor)
  | 0, _, _, _ => none
  | fuel + 1, left, rule, c =>
    match rule with
    | .done => some ([], c)
    | .never => none
    | .call name => run fuel left (g.rule name) c
    | .seq a b =>
      match run fuel [] a c with
      | none => none
      | some (xs, c) =>
        match run fuel [] b c with
        | none => none
        | some (ys, c) => some (xs ++ ys, c)
    | .alt a b =>
      match run fuel left a c with
      | some found => some found
      | none => run fuel left b c
    | .many a =>
      match run fuel [] a c with
      | none => some ([], c)
      | some (xs, stop) =>
        if stop.place.offset = c.place.offset then some ([], c)
        else match run fuel [] (.many a) stop with
          | none => some (xs, stop)
          | some (ys, stop) => some (xs ++ ys, stop)
    | .sign s =>
      let (extras, c) := g.lead c
      match Text.dropStart? s.toList c.rest with
      | some _ => some (take extras c s false s.length)
      | none => none
    | .word s =>
      let (extras, c) := g.lead c
      match g.dropWord? s.toList c.rest with
      | some (d :: _) => if g.isWordChar d then none else some (take extras c s false s.length)
      | some [] => some (take extras c s false s.length)
      | none => none
    | .longest known wanted =>
      let (extras, c) := g.lead c
      match longestSign? known c.rest with
      | some s => if wanted.contains s then some (take extras c s false s.length) else none
      | none => none
    | .leaf kind scan =>
      let (extras, c) := g.lead c
      match scan c.rest with
      | some length => some (take extras c kind true length)
      | none => none
    | .near kind scan =>
      match scan c.rest with
      | some length => some (take [] c kind true length)
      | none => none
    | .placed kind scan =>
      match scan c c.rest with
      | some length => some (take [] c kind true length)
      | none => none
    | .node kind a =>
      match run fuel [] a c with
      | some (nodes, stop) => some (c.enclose stop kind nodes, stop)
      | none => none
    | .field name a =>
      match run fuel left a c with
      | some (nodes, stop) => some (assignField name nodes, stop)
      | none => none
    | .chain base step =>
      match run fuel [] base c with
      | some (nodes, stop) => run fuel nodes (.grow step) stop
      | none => none
    | .grow step =>
      match run fuel left step c with
      | some (nodes, stop) => run fuel nodes (.grow step) stop
      | none => some (left, c)
    | .wrap kind role a =>
      match run fuel [] a c with
      | some (nodes, stop) => some (c.enclose stop kind (assignField role left ++ nodes), stop)
      | none => none
    | .ahead a =>
      match run fuel [] a c with
      | some _ => some ([], c)
      | none => none
    | .notAhead a =>
      match run fuel [] a c with
      | some _ => none
      | none => some ([], c)
    | .test p => if p c (g.lead c).2 then some ([], c) else none
    | .move f =>
      match f c (g.lead c).2 with
      | some c => some ([], c)
      | none => none
    | .inside a =>
      match run fuel [] a { c with depth := c.depth + 1 } with
      | some (nodes, stop) => some (nodes, { stop with depth := c.depth })
      | none => none

def depthLimit (length : Nat) : Nat := 4096 + 512 * length

/-- The root node of a document that the rule reads to its end. -/
def read? (kind : String) (rule : Rule σ) (text : List Char) : Option Node :=
  let start := Cursor.start text
  match g.run (depthLimit text.length) [] rule start with
  | none => none
  | some (nodes, stop) =>
    let (extras, last) := g.lead stop
    if last.rest.isEmpty then
      some { kind, start := start.place, stop := last.place, tail := text,
             children := nodes ++ extras }
    else none

end Grammar

end CodeOutline.Syntax
