import TokenDiff.Edit.Script

/-!
# Token sequences held in memory

The search does not need tokens that are read from anywhere. Two arrays of strings can be compared as
they are, with a `Likeness` in the place of the hash: the coarser it is, the more pairs match only at
first sight. A comparison can also be made to run out after a number of exact answers.
-/

namespace TokenDiff

inductive Likeness where
  | same
  | firstByte
  | byteLength
  | always
deriving DecidableEq, Repr

def Likeness.holds : Likeness → String → String → Bool
  | .same, s, t => s == t
  | .firstByte, s, t => s.toUTF8.data[0]? == t.toUTF8.data[0]?
  | .byteLength, s, t => s.utf8ByteSize == t.utf8ByteSize
  | .always, _, _ => true

/-- The comparison of two arrays of strings. Its state is the number of exact answers it may still
give; without one there is no limit. -/
def Comparison.ofStrings (likeness : Likeness) (old new : Array String) :
    Comparison (Option Nat) where
  oldCount := old.size
  newCount := new.size
  likely i j :=
    match old[i]?, new[j]? with
    | some s, some t => likeness.holds s t
    | _, _ => false
  equal i j := do
    match ← get with
    | some 0 => throw (.read (.failed (.device "comparison refused")))
    | some (n + 1) => set (some n)
    | none => pure ()
    return old[i]? == new[j]?

end TokenDiff
