import TokenDiff.Word

/-!
# Tuning

The sizes a comparison works with: how many bytes of each input are held in memory, and how many
rounds the search for a middle snake may take before it settles for the middle of its rectangle.
-/

namespace TokenDiff

structure Tuning where
  windowSize : Nat := 65536
  /-- the average number of tokens from which the reduced budget holds -/
  depthThreshold : Nat := 50000
  depthBudget : Nat := 100000000
  reducedDepthBudget : Nat := 10000000
  /-- the number of rounds that is always allowed -/
  minDepth : Nat := 42
deriving DecidableEq, Repr

namespace Tuning

/-- The rounds allowed for sequences of `m` and `n` tokens. The budget is shared out over the average
number of tokens; a fast comparison takes the minimum. -/
def maxDepth (tuning : Tuning) (m n : Nat) (fast : Bool) : Nat :=
  if fast then tuning.minDepth
  else
    let average := (m + n) / 2
    let budget :=
      if average < tuning.depthThreshold then tuning.depthBudget else tuning.reducedDepthBudget
    max (min (budget / max average 1) average) tuning.minDepth

def maxDepth? (tuning : Tuning) (m n : Nat) (fast : Bool) : Option Nat :=
  if fast || m + n < Word.modulus then some (tuning.maxDepth m n fast) else none

theorem minDepth_le_maxDepth (tuning : Tuning) (m n : Nat) (fast : Bool) :
    tuning.minDepth ≤ tuning.maxDepth m n fast := by
  unfold maxDepth
  split
  · exact Nat.le_refl _
  · exact Nat.le_max_right _ _

end Tuning

end TokenDiff
