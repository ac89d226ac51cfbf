import TokenDiff.Fault
import TokenDiff.Gzip.CodeTree

/-!
# Inflating

Compressed data is a sequence of bits, the low bit of each byte first. It consists of blocks, and a block
is either a stretch of plain bytes or a list of symbols of two prefix codes: a literal byte, the end of
the block, or a length, which is followed by a distance and repeats what was written that far back.

The state of the decoder is the bits that are left and the bytes that are written. It survives a fault,
so what came before the place where the input breaks off is still there. Each symbol and each block
takes at least one bit, and the number of bits bounds both loops.
-/

namespace TokenDiff.Gzip

structure Inflation where
  bits : List Bool
  written : Array UInt8 := #[]

abbrev InflateM := EStateM GzipFault Inflation

namespace Inflation

def bitsOf (data : List UInt8) : List Bool :=
  data.flatMap fun b => (List.range 8).map b.toNat.testBit

def bit : InflateM Bool := do
  match (← get).bits with
  | [] => throw .truncatedData
  | b :: bits =>
    modify ({ · with bits })
    return b

def number : Nat → InflateM Nat
  | 0 => return 0
  | n + 1 => do
    let low ← bit
    let high ← number n
    return low.toNat + 2 * high

def symbol : CodeTree → InflateM Nat
  | .none => throw .corruptData
  | .symbol n => return n
  | .fork zero one => do if ← bit then symbol one else symbol zero

def write (b : UInt8) : InflateM Unit :=
  modify fun s => { s with written := s.written.push b }

/-- Writes what was written `distance` bytes back, byte by byte, so that it may overlap itself. Before
the first byte lie zeros. -/
def copy (distance : Nat) : Nat → InflateM Unit
  | 0 => return ()
  | n + 1 => do
    let s ← get
    write (if distance ≤ s.written.size then s.written.getD (s.written.size - distance) 0 else 0)
    copy distance n

def align : InflateM Unit :=
  modify fun s => { s with bits := s.bits.drop (s.bits.length % 8) }

/-! ## Plain blocks -/

def plainBytes : Nat → InflateM Unit
  | 0 => return ()
  | n + 1 => do
    write (UInt8.ofNat (← number 8))
    plainBytes n

def plainBlock : InflateM Unit := do
  align
  let length ← number 16
  let inverted ← number 16
  if length + inverted != 0xFFFF then throw .corruptData
  plainBytes length

/-! ## Blocks of symbols -/

/-- The length that is the first one of symbol `257 + k`, and the number of bits that are added to it. -/
def lengthBases : Array (Nat × Nat) :=
  #[(3, 0), (4, 0), (5, 0), (6, 0), (7, 0), (8, 0), (9, 0), (10, 0), (11, 1), (13, 1), (15, 1), (17, 1),
    (19, 2), (23, 2), (27, 2), (31, 2), (35, 3), (43, 3), (51, 3), (59, 3), (67, 4), (83, 4), (99, 4),
    (115, 4), (131, 5), (163, 5), (195, 5), (227, 5), (258, 0)]

/-- The first distance of each distance symbol, and the number of bits that are added to it. -/
def distanceBases : Array (Nat × Nat) :=
  #[(1, 0), (2, 0), (3, 0), (4, 0), (5, 1), (7, 1), (9, 2), (13, 2), (17, 3), (25, 3), (33, 4), (49, 4),
    (65, 5), (97, 5), (129, 6), (193, 6), (257, 7), (385, 7), (513, 8), (769, 8), (1025, 9), (1537, 9),
    (2049, 10), (3073, 10), (4097, 11), (6145, 11), (8193, 12), (12289, 12), (16385, 13), (24577, 13)]

/-- The number that an entry of a table and its added bits stand for. -/
def based (bases : Array (Nat × Nat)) (k : Nat) : InflateM Nat :=
  match bases[k]? with
  | some (base, added) => do return base + (← number added)
  | none => throw .corruptData

def symbols (literals distances : CodeTree) : Nat → InflateM Unit
  | 0 => throw .truncatedData
  | fuel + 1 => do
    let n ← symbol literals
    if n < 256 then
      write (UInt8.ofNat n)
      symbols literals distances fuel
    else if n = 256 then return ()
    else
      let length ← based lengthBases (n - 257)
      let distance ← based distanceBases (← symbol distances)
      copy distance length
      symbols literals distances fuel

def symbolBlock (literals distances : CodeTree) : InflateM Unit := do
  symbols literals distances ((← get).bits.length + 1)

def fixedLiterals : List Nat :=
  List.replicate 144 8 ++ List.replicate 112 9 ++ List.replicate 24 7 ++ List.replicate 8 8

def fixedDistances : List Nat := List.replicate 32 5

/-! ## The codes of a block -/

/-- The order in which the lengths of the code of lengths are written. -/
def lengthOrder : List Nat := [16, 17, 18, 0, 8, 7, 9, 6, 10, 5, 11, 4, 12, 3, 13, 2, 14, 1, 15]

/-- At least so many lengths as are wanted, the latest one first: a symbol is a length, or repeats the
latest length, or stands for a run of zeros. -/
def lengths (tree : CodeTree) : Nat → Nat → List Nat → InflateM (List Nat)
  | 0, _, read => return read
  | fuel + 1, wanted, read => do
    if wanted ≤ read.length then return read
    let n ← symbol tree
    if n < 16 then lengths tree fuel wanted (n :: read)
    else if n = 16 then
      match read with
      | [] => throw .corruptData
      | latest :: _ =>
        let times := 3 + (← number 2)
        lengths tree fuel wanted (List.replicate times latest ++ read)
    else
      let times ← if n = 17 then (3 + ·) <$> number 3 else (11 + ·) <$> number 7
      lengths tree fuel wanted (List.replicate times 0 ++ read)

/-- A code has to be complete, unless it has only one word or none at all. -/
def isUsable (lengths : List Nat) : Bool :=
  CodeTree.isComplete lengths || decide ((lengths.filter (· != 0)).length ≤ 1)

def codes : InflateM (CodeTree × CodeTree) := do
  let literals := 257 + (← number 5)
  let distances := 1 + (← number 5)
  let count := 4 + (← number 4)
  if 286 < literals ∨ 30 < distances then throw .corruptData
  let given ← (List.replicate count 3).mapM number
  let placed := (List.range 19).map fun n => ((lengthOrder.zip given).lookup n).getD 0
  if !CodeTree.isComplete placed then throw .corruptData
  let wanted := literals + distances
  let read := (← lengths (CodeTree.ofLengths placed) wanted wanted []).reverse
  if read.length != wanted then throw .corruptData
  let (literals, distances) := read.splitAt literals
  if !isUsable literals || !isUsable distances then throw .corruptData
  return (CodeTree.ofLengths literals, CodeTree.ofLengths distances)

/-! ## All blocks -/

def block : InflateM Unit := do
  match ← number 2 with
  | 0 => plainBlock
  | 1 => symbolBlock (CodeTree.ofLengths fixedLiterals) (CodeTree.ofLengths fixedDistances)
  | 2 => do
    let (literals, distances) ← codes
    symbolBlock literals distances
  | _ => throw .corruptData

/-- The blocks up to the one that is marked as the last. -/
def blocks : Nat → InflateM Unit
  | 0 => throw .truncatedData
  | fuel + 1 => do
    let isLast ← bit
    block
    if isLast then return () else blocks fuel

end Inflation

/-- The bytes that some compressed data stands for, and what follows the data from the next whole byte on
or the fault that stopped it. -/
def inflate (data : List UInt8) : List UInt8 × Except GzipFault (List UInt8) :=
  let bits := Inflation.bitsOf data
  match (Inflation.blocks (bits.length + 1)).run { bits } with
  | .ok () s => (s.written.toList, .ok (data.drop (data.length - s.bits.length / 8)))
  | .error fault s => (s.written.toList, .error fault)

end TokenDiff.Gzip
