/-!
# SHA-1

The digest of a byte string under the secure hash standard. The string is padded to whole blocks of 64
bytes, and each block stirs five words. A block gives sixteen words of its own and sixty-four more, each
the rotated sum without carry of four earlier ones; the words are kept with the latest in front, so that
those four are at fixed places.
-/

namespace TokenDiff.Sha1

structure State where
  a : UInt32 := 0x67452301
  b : UInt32 := 0xEFCDAB89
  c : UInt32 := 0x98BADCFE
  d : UInt32 := 0x10325476
  e : UInt32 := 0xC3D2E1F0
deriving DecidableEq, Repr

def rotate (w k : UInt32) : UInt32 := (w <<< k) ||| (w >>> (32 - k))

def bytesOf : Nat → Nat → List UInt8
  | 0, _ => []
  | count + 1, n => UInt8.ofNat (n >>> (8 * count)) :: bytesOf count n

/-- A mark, zeros and the number of bits fill the last block. -/
def padding (length : Nat) : List UInt8 :=
  0x80 :: List.replicate ((119 - length % 64) % 64) 0 ++ bytesOf 8 (8 * length)

def words : List UInt8 → List UInt32
  | w :: x :: y :: z :: rest =>
    ((w.toUInt32 <<< 24) ||| (x.toUInt32 <<< 16) ||| (y.toUInt32 <<< 8) ||| z.toUInt32) :: words rest
  | _ => []

def extend : Nat → List UInt32 → List UInt32
  | 0, ws => ws
  | count + 1, ws =>
    let w := ws.getD 2 0 ^^^ ws.getD 7 0 ^^^ ws.getD 13 0 ^^^ ws.getD 15 0
    extend count (rotate w 1 :: ws)

/-- The four stages of twenty steps differ in how they mix three words and in a constant. -/
def mix (t : Nat) (b c d : UInt32) : UInt32 :=
  if t < 20 then ((b &&& c) ||| (~~~b &&& d)) + 0x5A827999
  else if t < 40 then (b ^^^ c ^^^ d) + 0x6ED9EBA1
  else if t < 60 then ((b &&& c) ||| (b &&& d) ||| (c &&& d)) + 0x8F1BBCDC
  else (b ^^^ c ^^^ d) + 0xCA62C1D6

def step (s : State) (word : UInt32 × Nat) : State where
  a := rotate s.a 5 + mix word.2 s.b s.c s.d + s.e + word.1
  b := s.a
  c := rotate s.b 30
  d := s.c
  e := s.d

def stir (s : State) (block : List UInt8) : State :=
  let t := (extend 64 (words block).reverse).reverse.zipIdx.foldl step s
  ⟨s.a + t.a, s.b + t.b, s.c + t.c, s.d + t.d, s.e + t.e⟩

def stirAll : Nat → List UInt8 → State → State
  | 0, _, s => s
  | count + 1, data, s => stirAll count (data.drop 64) (stir s (data.take 64))

def digest (data : List UInt8) : List UInt8 :=
  let padded := data ++ padding data.length
  let s := stirAll (padded.length / 64) padded {}
  [s.a, s.b, s.c, s.d, s.e].flatMap fun w => bytesOf 4 w.toNat

end TokenDiff.Sha1
