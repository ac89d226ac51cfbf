import TokenDiff.Digest.Cache
import TokenDiff.Edit.Tuning
import TokenDiff.Text.Timestamp

/-!
# Sessions

What the commands of one run share: the digests of the files read so far, the output written so far, the limits of
the search and the zone in which times are written. A command may fail, and what it has read and written before
stays. The files themselves are not part of a session: each command is given the disk it works on.
-/

namespace TokenDiff

structure Session where
  tuning : Tuning := {}
  zone : Zone := .greenwich
  digests : DigestCache := {}
  output : List UInt8 := []

abbrev SessionM := EStateM CommandFault Session

namespace Session

def write (text : List UInt8) : SessionM Unit :=
  modify fun s => { s with output := s.output ++ text }

def digestOf (disk : Disk) (p : Path) : SessionM FileDigest := fun s =>
  match DigestCache.digestOf disk p s.digests with
  | .ok digest digests => .ok digest { s with digests }
  | .error fault digests => .error fault { s with digests }

end Session

end TokenDiff
