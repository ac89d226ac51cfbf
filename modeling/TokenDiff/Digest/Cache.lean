import TokenDiff.Digest.FileDigest
import TokenDiff.Files.Disk
import TokenDiff.Session.Fault

/-!
# Digests by path

A cache keeps the digest of every file it was asked about. Its keys are the parts of a path, so two
spellings of one path share an entry. An entry is never replaced: what is there stays until it is taken
out, and a file that cannot be read leaves no entry.
-/

namespace TokenDiff

structure DigestCache where
  entries : List (List Part × FileDigest) := []
deriving DecidableEq, Repr

namespace DigestCache

def get? (c : DigestCache) (p : Path) : Option FileDigest := c.entries.lookup p.parts

def contains (c : DigestCache) (p : Path) : Bool := (c.get? p).isSome

def size (c : DigestCache) : Nat := c.entries.length

/-- Adds an entry for a path that has none. Also says whether it did. -/
def insertNew (c : DigestCache) (p : Path) (digest : FileDigest) : Bool × DigestCache :=
  if c.contains p then (false, c) else (true, ⟨(p.parts, digest) :: c.entries⟩)

def erase (c : DigestCache) (p : Path) : DigestCache := ⟨c.entries.filter (·.1 != p.parts)⟩

/-- The digest of the file at a path, which is read only if there is no entry for it yet. -/
def digestOf (disk : Disk) (p : Path) : EStateM CommandFault DigestCache FileDigest := fun c =>
  match c.get? p with
  | some digest => .ok digest c
  | none =>
    match disk.openFeed p with
    | .error fault => .error (.opening p (.path fault)) c
    | .ok feed =>
      match FileDigest.ofFeed feed with
      | .error fault => .error (.digesting p fault) c
      | .ok digest => .ok digest (c.insertNew p digest).2

theorem contains_iff (c : DigestCache) (p : Path) :
    c.contains p ↔ ∃ digest, c.get? p = some digest := Option.isSome_iff_exists

end DigestCache

end TokenDiff
