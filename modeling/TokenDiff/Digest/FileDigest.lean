import TokenDiff.Digest.Sha1
import TokenDiff.Reader

/-!
# Digests of files

The digest of a file is the SHA-1 digest of its content in hexadecimal, together with the number of its
bytes. Two files with equal digests count as having the same content.
-/

namespace TokenDiff

def hexByte (b : UInt8) : List Char :=
  [Nat.digitChar (b.toNat / 16), Nat.digitChar (b.toNat % 16)]

structure FileDigest where
  digest : String
  size : Nat
deriving DecidableEq, Repr

namespace FileDigest

def ofBytes (data : List UInt8) : FileDigest where
  digest := String.ofList ((Sha1.digest data).flatMap hexByte)
  size := data.length

def ofFeed (feed : Feed) : Except ReadFault FileDigest :=
  (Reader.ofFeed .raw feed).readToEnd.map ofBytes

/-- The first seven bytes of the digest, or all of it if it is shorter. There is no such text if a
character lies across the seventh byte. -/
def short? (d : FileDigest) : Option String :=
  String.fromUTF8? ⟨(d.digest.toUTF8.toList.take 7).toArray⟩

def text (d : FileDigest) : String := s!"{d.digest} {d.size}"

end FileDigest

end TokenDiff
