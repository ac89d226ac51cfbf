/-!
# Prefix codes from their lengths

A prefix code is written down as the length of the code word of every symbol. The words follow from the
lengths: shorter words stand before longer ones, and among words of one length the symbols are in order,
each word the next free one. A tree that is filled from the left in this order has exactly these words
as its paths, so `CodeTree.fill` builds it without computing a single word.
-/

namespace TokenDiff.Gzip

/-- A symbol is reached by following the bits of its word, left for a zero. -/
inductive CodeTree where
  | none
  | symbol (n : Nat)
  | fork (zero one : CodeTree)
deriving Repr

namespace CodeTree

def maxLength : Nat := 15

/-- The tree below a place at that depth, with at most `levels` levels under it, and the symbols that are
left for the places to its right. The symbols come with their lengths, ordered by length. -/
def fill : Nat → Nat → List (Nat × Nat) → CodeTree × List (Nat × Nat)
  | _, _, [] => (.none, [])
  | 0, _, symbols => (.none, symbols)
  | levels + 1, depth, (length, n) :: rest =>
    if length ≤ depth then (.symbol n, rest)
    else
      let (zero, left) := fill levels (depth + 1) ((length, n) :: rest)
      let (one, left) := fill levels (depth + 1) left
      (.fork zero one, left)

/-- The number of words of the largest length that the words of these lengths stand in front of. Each bit
less doubles it. -/
def share (lengths : List Nat) : Nat :=
  (lengths.filter (· != 0)).foldl (fun total length => total + 1 <<< (maxLength - length)) 0

/-- The lengths leave no word unused and use none twice. -/
def isComplete (lengths : List Nat) : Bool := share lengths == 1 <<< maxLength

/-- The tree of a code. The symbol at each position has a word of the length given there, or none if
that is zero. -/
def ofLengths (lengths : List Nat) : CodeTree :=
  let used := lengths.zipIdx.filter fun (length, _) => length != 0
  (fill (maxLength + 1) 0 (used.mergeSort fun s t => decide (s.1 ≤ t.1))).1

end CodeTree

end TokenDiff.Gzip
