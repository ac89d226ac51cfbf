import TokenDiff.Proofs.Digest.Cache
import TokenDiff.Proofs.Files.Parts

/-!
# What lookups leave in a cache

A lookup of a digest adds at most one entry, and only where there was none (`DigestCache.grows_lookUp`); one
that fails adds nothing (`DigestCache.lookUp_of_error`). As long as the paths that are looked up end plainly,
each entry holds the digest of the file that its key names (`DigestCache.Faithful`), and a lookup answers what
it would answer without a cache (`DigestCache.digestOf_eq`). A path that ends with a slash or a dot need not
lead to a file where its parts do; so for such a path the cache would make a difference.
-/

namespace TokenDiff

def endingIn {ε σ α : Type} : Except ε α → σ → EStateM.Result ε σ α
  | .ok a, s => .ok a s
  | .error e, s => .error e s

def Disk.digest (d : Disk) (p : Path) : Except CommandFault FileDigest :=
  match d.openFeed p with
  | .error fault => .error (.opening p (.path fault))
  | .ok feed => (FileDigest.ofFeed feed).mapError (.digesting p)

theorem Disk.digest_of_get {d : Disk} {p : Path} {f : File} (h : d.get p = .ok (.file f))
    (hread : f.readable = true) : d.digest p = .ok (FileDigest.ofBytes f.data) := by
  rw [digest, openFeed_of_file h hread]
  dsimp only
  rw [FileDigest.ofFeed_ofBytes]
  rfl

/-- A digest is that of a file that can be read. -/
theorem Disk.get_of_digest {d : Disk} {p : Path} {digest : FileDigest} (h : d.digest p = .ok digest) :
    ∃ f, d.get p = .ok (.file f) ∧ f.readable = true ∧ digest = FileDigest.ofBytes f.data := by
  cases hget : d.get p with
  | error fault =>
      rw [Disk.digest, openFeed_of_error hget] at h
      cases h
  | ok node =>
      cases node with
      | folder =>
          rw [Disk.digest, openFeed_of_folder hget] at h
          cases h
      | file f =>
          cases hread : f.readable with
          | false =>
              rw [Disk.digest, openFeed_of_unreadable hget hread] at h
              cases h
          | true =>
              rw [digest_of_get hget hread] at h
              exact ⟨f, rfl, hread, (Except.ok.inj h).symm⟩

namespace DigestCache

/-- Each entry is the digest of the file that its key names, which can be read. -/
def Faithful (disk : Disk) (c : DigestCache) : Prop :=
  ∀ entry ∈ c.entries, ∃ p f, p.EndsPlain ∧ p.parts = entry.1 ∧ disk.get p = .ok (.file f) ∧
    f.readable = true ∧ entry.2 = FileDigest.ofBytes f.data

/-- There may be more entries than before, and none of those before is replaced. -/
structure Grows (c c' : DigestCache) : Prop where
  suffix : c.entries <:+ c'.entries
  kept : ∀ p digest, c.get? p = some digest → c'.get? p = some digest

def lookUp (disk : Disk) (c : DigestCache) (p : Path) : DigestCache :=
  match digestOf disk p c with
  | .ok _ c' => c'
  | .error _ c' => c'

variable {disk : Disk} {c c' c'' : DigestCache} {p : Path}

/-- A file is read only if there is no entry for it. -/
theorem digestOf_eq_match (disk : Disk) (p : Path) (c : DigestCache) :
    digestOf disk p c =
      match c.get? p with
      | some digest => .ok digest c
      | none =>
        match disk.digest p with
        | .ok digest => .ok digest (c.insertNew p digest).2
        | .error fault => .error fault c := by
  rw [digestOf, Disk.digest]
  cases c.get? p with
  | some digest => rfl
  | none =>
      cases disk.openFeed p with
      | error fault => rfl
      | ok feed =>
          dsimp only
          cases FileDigest.ofFeed feed <;> rfl

/-! ## Entries are only added -/

theorem Grows.refl (c : DigestCache) : c.Grows c := ⟨List.suffix_refl _, fun _ _ h => h⟩

theorem Grows.trans (h : c.Grows c') (h' : c'.Grows c'') : c.Grows c'' :=
  ⟨h.suffix.trans h'.suffix, fun p digest hp => h'.kept p digest (h.kept p digest hp)⟩

theorem grows_insertNew (c : DigestCache) (p : Path) (digest : FileDigest) :
    c.Grows (c.insertNew p digest).2 := by
  unfold insertNew
  split
  · exact .refl c
  · rename_i hnew
    refine ⟨List.suffix_cons _ _, fun q kept hq => ?_⟩
    -- the new entry is not for a path that has one already
    have hother : (q.parts == p.parts) = false := by
      refine beq_false_of_ne fun hparts => hnew ?_
      rw [contains_iff, get?, ← hparts]
      exact ⟨kept, hq⟩
    rw [get?, List.lookup_cons, hother]
    exact hq

/-- A lookup that fails leaves everything as it was. -/
theorem eq_of_digestOf_error {fault : CommandFault} (h : digestOf disk p c = .error fault c') : c' = c := by
  rw [digestOf_eq_match] at h
  split at h
  · cases h
  · split at h
    · cases h
    · exact (EStateM.Result.error.inj h).2.symm

theorem grows_lookUp (disk : Disk) (c : DigestCache) (p : Path) : c.Grows (c.lookUp disk p) := by
  rw [lookUp, digestOf_eq_match]
  cases c.get? p with
  | some digest => exact .refl c
  | none =>
      cases disk.digest p with
      | ok digest => exact grows_insertNew c p digest
      | error fault => exact .refl c

theorem grows_foldl_lookUp (disk : Disk) (c : DigestCache) (paths : List Path) :
    c.Grows (paths.foldl (lookUp disk) c) := by
  induction paths generalizing c with
  | nil => exact .refl c
  | cons p paths ih => exact (grows_lookUp disk c p).trans (ih (c.lookUp disk p))

/-! ## Entries are faithful -/

theorem faithful_empty (disk : Disk) : Faithful disk {} := nofun

theorem Faithful.digest_eq (hc : c.Faithful disk) (hp : p.EndsPlain) {digest : FileDigest}
    (h : c.get? p = some digest) : disk.digest p = .ok digest := by
  obtain ⟨before, after, hentries, -⟩ := List.lookup_eq_some_iff.1 h
  obtain ⟨q, f, hq, hparts, hget, hread, rfl⟩ := hc (p.parts, digest) (by simp [hentries])
  rw [← Disk.get_eq_of_parts hp hq hparts.symm] at hget
  exact Disk.digest_of_get hget hread

/-- A lookup answers what it would answer without a cache. -/
theorem Faithful.digestOf_eq (hc : c.Faithful disk) (hp : p.EndsPlain) :
    digestOf disk p c = endingIn (disk.digest p) (c.lookUp disk p) := by
  rw [lookUp, digestOf_eq_match]
  cases hkept : c.get? p with
  | some digest =>
      rw [hc.digest_eq hp hkept]
      rfl
  | none => cases disk.digest p <;> rfl

theorem Faithful.lookUp (hc : c.Faithful disk) (hp : p.EndsPlain) : (c.lookUp disk p).Faithful disk := by
  rw [DigestCache.lookUp, digestOf_eq_match]
  cases c.get? p with
  | some digest => exact hc
  | none =>
      cases hdigest : disk.digest p with
      | error fault => exact hc
      | ok digest =>
          obtain ⟨f, hget, hread, hcontent⟩ := Disk.get_of_digest hdigest
          dsimp only
          unfold insertNew
          split
          · exact hc
          · exact List.forall_mem_cons.2 ⟨⟨p, f, hp, rfl, hget, hread, hcontent⟩, hc⟩

theorem Faithful.foldl_lookUp (hc : c.Faithful disk) {paths : List Path} (hpaths : ∀ p ∈ paths, p.EndsPlain) :
    (paths.foldl (DigestCache.lookUp disk) c).Faithful disk := by
  induction paths generalizing c with
  | nil => exact hc
  | cons p paths ih =>
      obtain ⟨hp, hrest⟩ := List.forall_mem_cons.1 hpaths
      exact ih (hc.lookUp hp) hrest

end DigestCache

end TokenDiff
