import TokenDiff.Digest.Cache
import TokenDiff.Proofs.Answer
import TokenDiff.Proofs.Files.Listing

/-!
# Digests that are true to the disk

A cache is true to a disk if what it keeps of a path is the digest of the file that the path leads to. A
fresh cache is, and asking for a digest keeps it so: two spellings of one path share an entry, but they also
lead to the same file (`Disk.get_congr`). So the digest that is given of a file that can be read is that of its
content, whatever has been asked for before (`answers_digestOf`).
-/

namespace TokenDiff

/-- All the bytes of an input in memory are read, as long as the reader is allowed more reads than there are
bytes. -/
theorem Reader.drain_ofBytes {fuel : Nat} {data : List UInt8} (h : data.length < fuel) :
    drain fuel ⟨Feed.ofBytes data, .raw⟩ = .ok data := by
  induction fuel generalizing data with
  | zero => exact absurd h (Nat.not_lt_zero _)
  | succ fuel ih =>
      cases data with
      | nil => rfl
      | cons b data =>
          have hback (left : List UInt8) : Feed.putBack left [] = Feed.ofBytes left := by
            cases left <;> rfl
          have hshorter : ((b :: data).drop 65536).length < fuel := by
            rw [List.length_drop, List.length_cons] at *
            omega
          change ((drain fuel ⟨Feed.putBack ((b :: data).drop 65536) [], .raw⟩).map
            ((b :: data).take 65536 ++ ·)) = _
          rw [hback, ih hshorter, Except.map, List.take_append_drop]

theorem Reader.readToEnd_ofBytes (data : List UInt8) :
    (Reader.ofFeed .raw (Feed.ofBytes data)).readToEnd = .ok data := by
  have hlength : data.length < (Reader.ofFeed .raw (Feed.ofBytes data)).bound + 1 := by
    change data.length < (Feed.ofBytes data).volume + 1
    cases data with
    | nil => exact Nat.zero_lt_one
    | cons b data =>
        change (b :: data).length < (b :: data).length + 1 + 0 + 1
        omega
  rw [readToEnd]
  exact drain_ofBytes hlength

theorem FileDigest.ofFeed_ofBytes (data : List UInt8) :
    ofFeed (Feed.ofBytes data) = .ok (ofBytes data) := by
  rw [ofFeed, Reader.readToEnd_ofBytes]
  rfl

/-- What the cache keeps of a path is the digest of the file that the path leads to. -/
def DigestCache.TrueTo (disk : Disk) (c : DigestCache) : Prop :=
  ∀ p f digest, disk.get p = .ok (.file f) → c.get? p = some digest → digest = FileDigest.ofBytes f.data

namespace DigestCache

variable {disk : Disk} {c : DigestCache} {p : Path} {f : File}

theorem trueTo_empty (disk : Disk) : TrueTo disk {} := fun _ _ _ _ h => nomatch h

theorem TrueTo.insertNew (h : c.TrueTo disk) (hp : disk.get p = .ok (.file f)) :
    (c.insertNew p (FileDigest.ofBytes f.data)).2.TrueTo disk := by
  unfold DigestCache.insertNew
  split
  · exact h
  · intro q g digest hq hdigest
    rw [get?] at hdigest
    dsimp only at hdigest
    rw [List.lookup_cons] at hdigest
    split at hdigest
    · rename_i hparts
      rw [Disk.get_congr (eq_of_beq hparts) hq hp]
      exact (Option.some.inj hdigest).symm
    · exact h q g digest hq hdigest

theorem answers_digestOf (hp : disk.get p = .ok (.file f)) (hread : f.readable = true) :
    Answers (TrueTo disk) (digestOf disk p) (FileDigest.ofBytes f.data) (TrueTo disk) := by
  intro c hc
  rw [digestOf]
  cases hkept : c.get? p with
  | some digest =>
      rw [hc p f digest hp hkept]
      exact ⟨c, rfl, hc⟩
  | none =>
      rw [Disk.openFeed_of_file hp hread]
      dsimp only
      rw [FileDigest.ofFeed_ofBytes]
      exact ⟨_, rfl, hc.insertNew hp⟩

end DigestCache

end TokenDiff
