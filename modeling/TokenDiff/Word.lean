/-!
# Counters of 64 bits

Counts, offsets and context widths are natural numbers throughout the library, and their sums are those of the
natural numbers. Where a sum that can pass the largest 64-bit counter does so, it is a fault. A count that is read
from text stops at the largest counter.
-/

namespace TokenDiff

namespace Word

def modulus : Nat := 18446744073709551616

/-- The number itself, or the largest counter if it is beyond that. -/
def clamp (n : Nat) : Nat := min n (modulus - 1)

end Word

end TokenDiff
