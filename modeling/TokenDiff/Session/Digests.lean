import TokenDiff.Charset.Text
import TokenDiff.Session.Basic

/-!
# Printing digests
-/

namespace TokenDiff

def Session.printDigests (disk : Disk) (files : List Path) : SessionM Unit :=
  files.forM fun p => do
    let digest ← Session.digestOf disk p
    Session.write (utf8Bytes s!"{digest.text} {p.text}\n")

end TokenDiff
