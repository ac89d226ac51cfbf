import TokenDiff.Digest.FileDigest
import TokenDiff.Reconcile.Change

/-!
# Pairing deleted files with added ones

A file that is only in the new tree may be a file of the old tree under another path. Each of them, in
order, takes the first file with its digest that is only in the old tree and not taken yet. A `Pairing`
keeps the numbers of the old files that are taken and the paths of the new files that took one; what is
not paired in the end has been added or deleted.
-/

namespace TokenDiff

structure Pairing where
  /-- the numbers of the old files that are taken -/
  taken : List Nat := []
  /-- the paths of the new files that are paired -/
  paired : List Path := []
  /-- how many old files have been found to be deleted -/
  deletions : Nat := 0
deriving DecidableEq, Repr

namespace Pairing

def take (s : Pairing) (i : Nat) : Pairing := { s with taken := i :: s.taken }

def isTaken (s : Pairing) (i : Nat) : Bool := s.taken.contains i

def addPaired (s : Pairing) (p : Path) : Pairing := { s with paired := s.paired ++ [p] }

def isPaired (s : Pairing) (p : Path) : Bool := s.paired.any (·.parts == p.parts)

def countDeletion (s : Pairing) : Pairing := { s with deletions := s.deletions + 1 }

theorem isTaken_take (s : Pairing) (i j : Nat) :
    (s.take i).isTaken j = (j == i || s.isTaken j) := rfl

def candidate? (s : Pairing) (gone : List (Path × FileDigest)) (digest : FileDigest) :
    Option (Path × Nat) :=
  (gone.zipIdx.find? fun (old, i) => !s.isTaken i && old.2 == digest).map fun (old, i) => (old.1, i)

/-- The renames that pairing the new files in order yields. -/
def renames (gone : List (Path × FileDigest)) :
    List (Path × FileDigest) → Pairing → List Change × Pairing
  | [], s => ([], s)
  | (path, digest) :: fresh, s =>
    match s.candidate? gone digest with
    | some (source, i) =>
      let (changes, s) := renames gone fresh ((s.take i).addPaired path)
      (.renamed source path :: changes, s)
    | none => renames gone fresh s

def deletionsOf (s : Pairing) (gone : List (Path × FileDigest)) : List Change :=
  (gone.zipIdx.filter fun (_, i) => !s.isTaken i).map fun (old, _) => .deleted old.1

end Pairing

/-- The changes between two trees, in the order of their paths: of the files in both of them those that
are different, of the others the files that are gone and the fresh ones with their digests. -/
def Change.between (different : List Path) (gone fresh : List (Path × FileDigest)) : List Change :=
  let (moved, pairing) := Pairing.renames gone fresh {}
  let added := (fresh.filter fun new => !pairing.isPaired new.1).map fun new => Change.added new.1
  let changes := different.map .modified ++ moved ++ added ++ pairing.deletionsOf gone
  changes.mergeSort fun c d => !decide (d.path < c.path)

end TokenDiff
