/-!
# Sets of characters by ranges
-/

namespace TokenDiff

def inRanges (ranges : List (Nat × Nat)) (c : Char) : Bool :=
  ranges.any fun (first, last) => decide (first ≤ c.toNat ∧ c.toNat ≤ last)

end TokenDiff
