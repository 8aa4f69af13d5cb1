import CodeOutline.Text.Search

/-!
File patterns. Matching is by UTF-8 bytes: a question mark stands for one byte, a star for
any number of them, slashes included, and two stars that fill a component for any number
of components.
-/

set_option autoImplicit false

namespace CodeOutline.Glob

inductive Token
  | byte (b : UInt8)
  | any
  | star
  /-- Two stars at the beginning: nothing, or all up to some slash. -/
  | treeStart
  /-- Two stars at the end: a slash and at least what follows it. -/
  | treeEnd
  /-- Two stars between slashes. -/
  | treeMiddle
  | set (negated : Bool) (ranges : List (UInt8 × UInt8))
  | oneOf (alternatives : List (List Token))
deriving Repr, Inhabited

inductive PatternFault
  | unclosedClass
  | invalidRange (low high : Char)
  | unopenedGroup
  | unclosedGroup
  | danglingEscape
deriving DecidableEq, Repr

def PatternFault.message : PatternFault → String
  | .unclosedClass => "unclosed character class; missing ']'"
  | .invalidRange low high =>
    "invalid range; '" ++ low.toString ++ "' > '" ++ high.toString ++ "'"
  | .unopenedGroup =>
    "unopened alternate group; missing '\x7b' (maybe escape '\x7d' with '[\x7d]'?)"
  | .unclosedGroup =>
    "unclosed alternate group; missing '\x7d' (maybe escape '\x7b' with '[\x7b]'?)"
  | .danglingEscape => "dangling '\\'"

def faultMessage (pattern : String) (fault : PatternFault) : String :=
  "error parsing glob '" ++ pattern ++ "': " ++ fault.message

private def bytesOf (c : Char) : List Token :=
  (String.singleton c).toUTF8.toList.map Token.byte

private structure Group where
  done : List (List Token) := []
  current : List Token := []

private structure Reading where
  groups : List Group := []
  top : List Token := []

private def Reading.current (r : Reading) : List Token :=
  match r.groups with
  | g :: _ => g.current
  | [] => r.top

private def Reading.withCurrent (r : Reading) (ts : List Token) : Reading :=
  match r.groups with
  | g :: rest => { r with groups := { g with current := ts } :: rest }
  | [] => { r with top := ts }

private def Reading.push (r : Reading) (ts : List Token) : Reading :=
  r.withCurrent (ts.reverse ++ r.current)

private def Reading.openGroup (r : Reading) : Reading := { r with groups := {} :: r.groups }

private def Reading.nextAlternative (r : Reading) : Reading :=
  match r.groups with
  | g :: rest => { r with groups := { done := g.current.reverse :: g.done } :: rest }
  | [] => r

private def Reading.closeGroup? (r : Reading) : Option Reading :=
  match r.groups with
  | g :: rest =>
    some (({ r with groups := rest } : Reading).push
      [.oneOf (g.current.reverse :: g.done).reverse])
  | [] => none

private def byteRanges (low high : Char) : List (UInt8 × UInt8) :=
  let bytes (c : Char) : List UInt8 := (String.singleton c).toUTF8.toList
  let single (b : UInt8) : UInt8 × UInt8 := (b, b)
  if low = high then (bytes low).map single
  else match (bytes low).getLast?, bytes high with
    | some a, b :: more => (bytes low).dropLast.map single ++ [(a, b)] ++ more.map single
    | _, _ => []

private def classRanges (ranges : List (Char × Char)) (isFirst dash : Bool) :
    List Char → Except PatternFault (List (Char × Char) × List Char)
  | [] => .error .unclosedClass
  | c :: rest =>
    if c = ']' && !isFirst then
      .ok ((if dash then ('-', '-') :: ranges else ranges).reverse, rest)
    else if c = '-' && !isFirst && !dash then classRanges ranges false true rest
    else match dash, ranges with
      | true, (low, _) :: others =>
        if c < low then .error (.invalidRange low c)
        else classRanges ((low, c) :: others) false false rest
      | _, _ => classRanges ((c, c) :: ranges) false false rest

private theorem classRanges_length (cs : List Char) (ranges : List (Char × Char))
    (isFirst dash : Bool) {found : List (Char × Char)} {rest : List Char}
    (h : classRanges ranges isFirst dash cs = .ok (found, rest)) :
    rest.length < cs.length := by
  induction cs generalizing ranges isFirst dash with
  | nil => simp [classRanges] at h
  | cons c cs ih =>
    unfold classRanges at h
    split at h
    · cases h; simp
    · split at h
      · exact Nat.lt_succ_of_lt (ih _ _ _ h)
      · split at h
        · split at h
          · cases h
          · exact Nat.lt_succ_of_lt (ih _ _ _ h)
        · exact Nat.lt_succ_of_lt (ih _ _ _ h)

private def isSlash (c : Char) : Bool := c == '/'

private def readStars (r : Reading) (before next : Option Char) : Reading × Bool :=
  let two := (r.push [.star, .star], false)
  let ends := (next.map (fun c => (c == ',' || c == '\x7d') && !r.groups.isEmpty)).getD true
  let slash := (next.map isSlash).getD false
  if r.current.isEmpty then
    if slash || next.isNone then (r.push [.treeStart], slash) else two
  else if !(before.map isSlash).getD false then two
  else if !ends && !slash then two
  else match r.current with
    | .treeStart :: _ | .treeEnd :: _ => (r, slash)
    | others => (r.withCurrent ((if ends then .treeEnd else .treeMiddle) :: others.tail), slash)

private def readFrom (r : Reading) (before : Option Char) (cs : List Char) :
    Except PatternFault Reading :=
  match cs with
  | [] => .ok r
  | '?' :: rest => readFrom (r.push [.any]) (some '?') rest
  | '*' :: '*' :: '/' :: rest =>
    match readStars r before (some '/') with
    | (r, true) => readFrom r (some '/') rest
    | (r, false) => readFrom (r.push (bytesOf '/')) (some '/') rest
  | '*' :: '*' :: rest => readFrom (readStars r before rest.head?).1 (some '*') rest
  | '*' :: rest => readFrom (r.push [.star]) (some '*') rest
  | '[' :: rest =>
    let negated := rest.head? == some '!' || rest.head? == some '^'
    match hc : classRanges [] true false (rest.drop (if negated then 1 else 0)) with
    | .error e => .error e
    | .ok (ranges, rest') =>
      have hlen : rest'.length < rest.length + 1 := by
        have := classRanges_length _ _ _ _ hc
        simp only [List.length_drop] at this
        omega
      readFrom (r.push [.set negated (ranges.flatMap (fun (low, high) => byteRanges low high))])
        (some ']') rest'
  | '\x7b' :: rest => readFrom r.openGroup (some '\x7b') rest
  | '\x7d' :: rest =>
    match r.closeGroup? with
    | some r => readFrom r (some '\x7d') rest
    | none => .error .unopenedGroup
  | ',' :: rest =>
    if r.groups.isEmpty then readFrom (r.push (bytesOf ',')) (some ',') rest
    else readFrom r.nextAlternative (some ',') rest
  | '\\' :: [] => .error .danglingEscape
  | '\\' :: c :: rest => readFrom (r.push (bytesOf c)) (some c) rest
  | c :: rest => readFrom (r.push (bytesOf c)) (some c) rest
termination_by cs.length

/-- The tokens of a pattern. -/
def parse (pattern : String) : Except PatternFault (List Token) :=
  match readFrom {} none pattern.toList with
  | .error e => .error e
  | .ok r => if r.groups.isEmpty then .ok r.top.reverse else .error .unclosedGroup

private def distinct : List (List UInt8) → List (List UInt8)
  | [] => []
  | bs :: rest =>
    let others := distinct rest
    if others.any (fun other => other.length == bs.length) then others else bs :: others

def ends : List UInt8 → List (List UInt8)
  | [] => [[]]
  | b :: bs => (b :: bs) :: ends bs

private def slashByte : UInt8 := 47

private def behindSlash : List UInt8 → List (List UInt8)
  | b :: rest => if b = slashByte then [rest] else []
  | [] => []

mutual

private def behindToken : Token → List UInt8 → List (List UInt8)
  | .byte b, bs =>
    match bs with
    | c :: rest => if b = c then [rest] else []
    | [] => []
  | .any, bs =>
    match bs with
    | _ :: rest => [rest]
    | [] => []
  | .star, bs => ends bs
  | .treeStart, bs => bs :: (ends bs).flatMap behindSlash
  | .treeEnd, bs => (behindSlash bs).flatMap ends
  | .treeMiddle, bs =>
    let here := behindSlash bs
    here ++ here.flatMap (fun rest => (ends rest).flatMap behindSlash)
  | .set negated ranges, bs =>
    match bs with
    | c :: rest =>
      if ranges.any (fun (low, high) => low ≤ c && c ≤ high) != negated then [rest] else []
    | [] => []
  | .oneOf alternatives, bs =>
    if alternatives.all List.isEmpty then [bs] else behindAny alternatives bs

private def behindAny : List (List Token) → List UInt8 → List (List UInt8)
  | [], _ => []
  | ts :: rest, bs => (if ts.isEmpty then [] else behindAll ts [bs]) ++ behindAny rest bs

private def behindAll : List Token → List (List UInt8) → List (List UInt8)
  | [], texts => texts
  | t :: ts, texts => behindAll ts (distinct (texts.flatMap (fun bs => behindToken t bs)))

end

/-- The tokens match the whole text. Two stars alone match everything. -/
def matchTokens (tokens : List Token) (text : String) : Bool :=
  match tokens with
  | [.treeStart] => true
  | tokens => (behindAll tokens [text.toUTF8.toList]).any List.isEmpty

/-- The pattern is well formed and matches the whole text. -/
def isMatch (pattern text : String) : Bool :=
  match parse pattern with
  | .ok tokens => matchTokens tokens text
  | .error _ => false

end CodeOutline.Glob
