/-!
# Decoding UTF-16

The decoder turns code units into characters and writes each of them in UTF-8. Between two reads it
keeps what is not complete yet: the first byte of a unit, and the first unit of a surrogate pair. A byte
order mark is left out if it is the very first character.
-/

namespace TokenDiff

inductive ByteOrder where
  | little
  | big
deriving DecidableEq, Repr

def ByteOrder.unit : ByteOrder → UInt8 → UInt8 → UInt16
  | .little, first, second => second.toUInt16 <<< 8 ||| first.toUInt16
  | .big, first, second => first.toUInt16 <<< 8 ||| second.toUInt16

/-- The complete units of a list of bytes, and the byte left over. -/
def ByteOrder.units (order : ByteOrder) : List UInt8 → List UInt16 × Option UInt8
  | [] => ([], none)
  | [b] => ([], some b)
  | first :: second :: bytes =>
    let (us, left) := order.units bytes
    (order.unit first second :: us, left)

def isHighSurrogate (u : UInt16) : Bool := 0xd800 ≤ u && u ≤ 0xdbff

def isLowSurrogate (u : UInt16) : Bool := 0xdc00 ≤ u && u ≤ 0xdfff

def surrogatePair (high low : UInt16) : Char :=
  Char.ofNat (0x10000 + (high.toNat - 0xd800) * 0x400 + (low.toNat - 0xdc00))

/-- The state of the decoder: a byte and a high surrogate that wait for more, the bytes of the units
accepted so far, and whether a character has been decoded yet. -/
structure Utf16Decode where
  staged : Option UInt8 := none
  high : Option UInt16 := none
  offset : Nat := 0
  atStart : Bool := true
deriving DecidableEq, Repr

namespace Utf16Decode

def emit (s : Utf16Decode) (c : Char) : List UInt8 × Utf16Decode :=
  let out := if s.atStart && c.toNat == 0xfeff then [] else String.utf8EncodeChar c
  (out, { s with high := none, offset := s.offset + 2, atStart := false })

def step (s : Utf16Decode) (u : UInt16) : Option (List UInt8 × Utf16Decode) :=
  match s.high with
  | some high => if isLowSurrogate u then some (s.emit (surrogatePair high u)) else none
  | none =>
    if isHighSurrogate u then some ([], { s with high := some u, offset := s.offset + 2 })
    else if isLowSurrogate u then none
    else some (s.emit (Char.ofNat u.toNat))

/-- The bytes written for a list of units and the state after them. At a unit that is not allowed the
decoder stops and forgets the surrogate before it; the flag says that this happened. -/
def run (s : Utf16Decode) : List UInt16 → List UInt8 × Utf16Decode × Bool
  | [] => ([], s, false)
  | u :: us =>
    match s.step u with
    | some (out, s) =>
      let (more, s, stopped) := s.run us
      (out ++ more, s, stopped)
    | none => ([], { s with high := none }, true)

/-- The bytes written for a list of bytes, the state after them, and whether the decoder stopped. -/
def feed (s : Utf16Decode) (order : ByteOrder) (bytes : List UInt8) :
    List UInt8 × Utf16Decode × Bool :=
  let (us, left) := order.units (s.staged.toList ++ bytes)
  { s with staged := left }.run us

def isPartial (s : Utf16Decode) : Bool := s.staged.isSome || s.high.isSome

end Utf16Decode

end TokenDiff
