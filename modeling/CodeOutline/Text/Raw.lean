import CodeOutline.Text.Blank

/-!
Text as a file system keeps it: bytes, which are those of a text in UTF-8 as a rule. Other bytes
can be shown as well, with a replacement character for every sequence that cannot be read.
-/

set_option autoImplicit false

namespace CodeOutline

/-! Reading UTF-8 -/

namespace Utf8

/-- A character of which the first bytes are read: the value so far, the number of bytes that are
to come, and the range of the next one. -/
structure Begun where
  value : Nat
  left : Nat
  low : Nat := 0x80
  high : Nat := 0xBF

def first (byte : Nat) : List (Option Char) × Option Begun :=
  if byte < 0x80 then ([some (Char.ofNat byte)], none)
  else if byte < 0xC2 then ([none], none)
  else if byte < 0xE0 then ([], some { value := byte - 0xC0, left := 1 })
  else if byte < 0xF0 then
    ([], some { value := byte - 0xE0, left := 2, low := if byte = 0xE0 then 0xA0 else 0x80,
                high := if byte = 0xED then 0x9F else 0xBF })
  else if byte < 0xF5 then
    ([], some { value := byte - 0xF0, left := 3, low := if byte = 0xF0 then 0x90 else 0x80,
                high := if byte = 0xF4 then 0x8F else 0xBF })
  else ([none], none)

/-- What one byte settles. When it cannot go on with what has begun, that is one fault, and the
byte stands between two characters. -/
def step (begun : Option Begun) (byte : Nat) : List (Option Char) × Option Begun :=
  match begun with
  | none => first byte
  | some b =>
    if b.low ≤ byte && byte ≤ b.high then
      let value := b.value * 64 + (byte - 0x80)
      if b.left = 1 then ([some (Char.ofNat value)], none)
      else ([], some { value, left := b.left - 1 })
    else
      let (read, begun) := first byte
      (none :: read, begun)

def decodeFrom : Option Begun → List UInt8 → List (Option Char)
  | none, [] => []
  | some _, [] => [none]
  | begun, byte :: bytes =>
    let (read, begun) := step begun byte.toNat
    read ++ decodeFrom begun bytes

/-- The characters of bytes in UTF-8. A sequence that no character begins with is a fault, as long
as it agrees with one, and in any case one byte. -/
def decode (bytes : List UInt8) : List (Option Char) := decodeFrom none bytes

end Utf8

/-! Raw text -/

structure RawText where
  bytes : List UInt8
deriving DecidableEq, Repr, Inhabited

namespace RawText

/-- A text as it is kept. -/
def ofText (s : String) : RawText := ⟨s.toUTF8.data.toList⟩

instance : Coe String RawText := ⟨ofText⟩

/-- The text as it is shown. -/
def lossy (r : RawText) : String :=
  String.ofList ((Utf8.decode r.bytes).map (·.getD '\uFFFD'))

def text? (r : RawText) : Option String := if ofText r.lossy = r then some r.lossy else none

def isEmpty (r : RawText) : Bool := r.bytes.isEmpty

end RawText

end CodeOutline
