import TokenDiff.Pattern.Matching
import TokenDiff.Reconcile.Pairing
import TokenDiff.Session.Basic

/-!
# Comparing two trees

Both trees are listed before anything is read, and everything is read before anything is written. The
digests are asked for in a fixed order: for the files in both trees the old one and then the new one, then
the files that are in the old tree only, then those that are in the new tree only.
-/

namespace TokenDiff

structure TreeRequest where
  old : Path
  new : Path
  /-- files are left out of both trees if their relative path matches -/
  exclude : Option Pattern := none
  kinds : KindSet := KindSet.all
  colours : Bool := false

namespace TreeRequest

def excludes (r : TreeRequest) (names : List Name) : Bool :=
  r.exclude.any fun pattern => pattern.occursIn (Path.ofNames names).text

/-- The files of a tree that are not left out, by the names that lead to them from its root. -/
def list (r : TreeRequest) (disk : Disk) (root : Path) : Except CommandFault (List (List Name)) :=
  match disk.resolve root with
  | .ok place =>
    if disk.isFolder place then .ok ((disk.filesUnder place).filter fun names => !r.excludes names)
    else .error (.notAFolder root)
  | .error _ => .error (.notAFolder root)

end TreeRequest

namespace Session

def digestsUnder (disk : Disk) (root : Path) (files : List (List Name)) :
    SessionM (List (Path × FileDigest)) :=
  files.mapM fun names => do return (Path.ofNames names, ← Session.digestOf disk (root.join names))

def reconcile (disk : Disk) (r : TreeRequest) : SessionM (List Change) := do
  let old ← MonadExcept.ofExcept (r.list disk r.old)
  let new ← MonadExcept.ofExcept (r.list disk r.new)
  let different ← (old.filter new.contains).filterM fun names => do
    let before ← Session.digestOf disk (r.old.join names)
    let after ← Session.digestOf disk (r.new.join names)
    return before != after
  let gone ← digestsUnder disk r.old (old.filter fun names => !new.contains names)
  let fresh ← digestsUnder disk r.new (new.filter fun names => !old.contains names)
  let changes := Change.between (different.map Path.ofNames) gone fresh
  let wanted := changes.filter fun c => r.kinds.contains c.kind
  Session.write (wanted.flatMap fun c => c.line r.colours)
  return wanted

end Session

end TokenDiff
