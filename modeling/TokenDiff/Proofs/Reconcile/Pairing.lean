import Mathlib.Data.List.Basic
import TokenDiff.Proofs.Files.Order
import TokenDiff.Reconcile.Pairing

/-!
# Which files are paired

The files that have one digest are paired in order: the first of the new files with the first of the old
ones, and so on for as long as there are both (`mem_renames`). For each digest the old files that are taken
are those at the front, as many as there have been new files (`Pairing.Follows`), and this is what a step of
the pairing keeps. What is left over has been added or deleted, and no file is counted twice
(`Change.mem_between`, `Change.pairwise_between`).
-/

namespace TokenDiff

/-- The paths of the files that have a digest. -/
def withDigest (files : List (Path × FileDigest)) (digest : FileDigest) : List Path :=
  (files.filter (·.2 == digest)).map (·.1)

/-- How many files before place `i` have the digest. -/
def rankOf (files : List (Path × FileDigest)) (digest : FileDigest) (i : Nat) : Nat :=
  (withDigest (files.take i) digest).length

section

variable {files : List (Path × FileDigest)} {digest : FileDigest} {p q : Path} {i j k : Nat}

theorem withDigest_append (files files' : List (Path × FileDigest)) (digest : FileDigest) :
    withDigest (files ++ files') digest = withDigest files digest ++ withDigest files' digest := by
  rw [withDigest, List.filter_append, List.map_append]
  rfl

theorem withDigest_cons_self (p : Path) (digest : FileDigest) (files : List (Path × FileDigest)) :
    withDigest ((p, digest) :: files) digest = p :: withDigest files digest := by
  rw [withDigest, List.filter_cons, if_pos (beq_self_eq_true digest)]
  rfl

theorem withDigest_cons_of_ne {d : FileDigest} (h : d ≠ digest) (p : Path)
    (files : List (Path × FileDigest)) : withDigest ((p, d) :: files) digest = withDigest files digest := by
  rw [withDigest, List.filter_cons_of_neg (by simpa using h)]
  rfl

theorem rankOf_succ (h : files[i]? = some (p, digest)) :
    rankOf files digest (i + 1) = rankOf files digest i + 1 := by
  rw [rankOf, List.take_add_one, h, Option.toList_some, withDigest_append, List.length_append,
    withDigest_cons_self]
  rfl

theorem rankOf_cons_succ (file : Path × FileDigest) (files : List (Path × FileDigest)) (digest : FileDigest)
    (i : Nat) :
    rankOf (file :: files) digest (i + 1) = (withDigest [file] digest).length + rankOf files digest i := by
  rw [rankOf, List.take_succ_cons, ← List.singleton_append, withDigest_append, List.length_append, rankOf]

theorem rankOf_le (files : List (Path × FileDigest)) (digest : FileDigest) (hij : i ≤ j) :
    rankOf files digest i ≤ rankOf files digest j := by
  obtain ⟨k, rfl⟩ := Nat.exists_eq_add_of_le hij
  rw [rankOf, rankOf, List.take_add, withDigest_append, List.length_append]
  exact Nat.le_add_right _ _

theorem rankOf_lt (h : files[i]? = some (p, digest)) (hij : i < j) :
    rankOf files digest i < rankOf files digest j := by
  have hle := rankOf_le files digest (Nat.succ_le_of_lt hij)
  rw [Nat.succ_eq_add_one, rankOf_succ h] at hle
  exact Nat.lt_of_succ_le hle

theorem eq_of_rankOf_eq (hi : files[i]? = some (p, digest)) (hj : files[j]? = some (q, digest))
    (h : rankOf files digest i = rankOf files digest j) : i = j := by
  rcases Nat.lt_trichotomy i j with hij | hij | hij
  · exact absurd h (Nat.ne_of_lt (rankOf_lt hi hij))
  · exact hij
  · exact absurd h.symm (Nat.ne_of_lt (rankOf_lt hj hij))

/-- The file that has a rank among those with its digest. -/
theorem getElem?_withDigest : (withDigest files digest)[k]? = some p ↔
    ∃ i, files[i]? = some (p, digest) ∧ rankOf files digest i = k := by
  constructor
  · intro h
    induction files generalizing k with
    | nil => cases h
    | cons file files ih =>
        obtain ⟨q, d⟩ := file
        by_cases hd : d = digest
        · subst hd
          rw [withDigest_cons_self] at h
          cases k with
          | zero =>
              rw [List.getElem?_cons_zero] at h
              exact ⟨0, by rw [List.getElem?_cons_zero, Option.some.inj h], rfl⟩
          | succ k =>
              rw [List.getElem?_cons_succ] at h
              obtain ⟨i, hi, hrank⟩ := ih h
              refine ⟨i + 1, hi, ?_⟩
              rw [rankOf, List.take_succ_cons, withDigest_cons_self, List.length_cons, ← hrank, rankOf]
        · rw [withDigest_cons_of_ne hd] at h
          obtain ⟨i, hi, hrank⟩ := ih h
          refine ⟨i + 1, hi, ?_⟩
          rw [rankOf, List.take_succ_cons, withDigest_cons_of_ne hd, ← hrank, rankOf]
  · rintro ⟨i, hi, rfl⟩
    obtain ⟨hlt, hget⟩ := List.getElem?_eq_some_iff.1 hi
    have hsplit : files = files.take i ++ (p, digest) :: files.drop (i + 1) := by
      rw [← hget, List.getElem_cons_drop, List.take_append_drop]
    have hparts : withDigest files digest =
        withDigest (files.take i) digest ++ p :: withDigest (files.drop (i + 1)) digest := by
      rw [← withDigest_cons_self, ← withDigest_append, ← hsplit]
    rw [hparts, rankOf, List.getElem?_append_right (Nat.le_refl _), Nat.sub_self]
    rfl

theorem rankOf_lt_length (h : files[i]? = some (p, digest)) :
    rankOf files digest i < (withDigest files digest).length :=
  (List.getElem?_eq_some_iff.1 (getElem?_withDigest.2 ⟨i, h, rfl⟩)).1

theorem exists_of_lt_rankOf (h : k < rankOf files digest i) :
    ∃ j q, j < i ∧ files[j]? = some (q, digest) ∧ rankOf files digest j = k := by
  obtain ⟨j, hj, hrank⟩ := getElem?_withDigest.1 (List.getElem?_eq_getElem h)
  rw [List.getElem?_take] at hj
  split at hj
  · rename_i hji
    refine ⟨j, _, hji, hj, ?_⟩
    rw [← hrank, rankOf, rankOf, List.take_take, Nat.min_eq_left (Nat.le_of_lt hji)]
  · cases hj

end

namespace Pairing

/-- The old files that are taken, once some new files have been seen: of each digest those at the front, as
many as there have been new files with it. -/
def Follows (gone seen : List (Path × FileDigest)) (s : Pairing) : Prop :=
  ∀ i q digest, gone[i]? = some (q, digest) →
    (s.isTaken i = true ↔ rankOf gone digest i < (withDigest seen digest).length)

section

variable {gone seen fresh : List (Path × FileDigest)} {s : Pairing} {p q : Path} {digest : FileDigest}
  {i k : Nat}

theorem follows_nil (gone : List (Path × FileDigest)) : Follows gone [] {} := by
  intro i q digest _
  exact ⟨fun h => absurd h Bool.false_ne_true, fun h => absurd h (Nat.not_lt_zero _)⟩

/-- The old file that is found is the next one with the digest. -/
theorem Follows.candidate?_eq_some (hs : s.Follows gone seen) (h : s.candidate? gone digest = some (q, i)) :
    gone[i]? = some (q, digest) ∧ rankOf gone digest i = (withDigest seen digest).length := by
  obtain ⟨⟨⟨q', d⟩, i'⟩, hfind, hpair⟩ := Option.map_eq_some_iff.1 h
  obtain ⟨rfl, rfl⟩ := Prod.mk.inj hpair
  obtain ⟨hfits, n, hn, hget, hfirst⟩ := List.find?_eq_some_iff_getElem.1 hfind
  rw [List.getElem_zipIdx, Nat.zero_add, Prod.mk.injEq] at hget
  obtain ⟨hget, rfl⟩ := hget
  rw [Bool.and_eq_true, Bool.not_eq_true', beq_iff_eq] at hfits
  obtain ⟨hfree, rfl⟩ := hfits
  rw [List.length_zipIdx] at hn
  have hi : gone[n]? = some (q', d) := by rw [List.getElem?_eq_getElem hn, hget]
  refine ⟨hi, Nat.le_antisymm ?_ ?_⟩
  · by_contra hlt
    obtain ⟨j, p, hj, hp, hrank⟩ := exists_of_lt_rankOf (Nat.lt_of_not_le hlt)
    -- a file of that rank would not be taken, and it would come first
    have hother := hfirst j hj
    have hlength := (List.getElem?_eq_some_iff.1 hp).2
    rw [List.getElem_zipIdx, Nat.zero_add, hlength] at hother
    have hfree' : s.isTaken j = false := by
      rw [Bool.eq_false_iff, Ne, hs j p d hp, hrank]
      exact Nat.lt_irrefl _
    change (!(!s.isTaken j && d == d)) = true at hother
    rw [hfree', beq_self_eq_true] at hother
    exact absurd hother (by decide)
  · rw [Bool.eq_false_iff, Ne, hs n q' d hi] at hfree
    exact Nat.le_of_not_lt hfree

theorem Follows.candidate?_eq_none (hs : s.Follows gone seen) (h : s.candidate? gone digest = none) :
    (withDigest gone digest).length ≤ (withDigest seen digest).length := by
  by_contra hlt
  obtain ⟨i, hi, hrank⟩ := getElem?_withDigest.1 (List.getElem?_eq_getElem (Nat.lt_of_not_le hlt))
  rw [candidate?, Option.map_eq_none_iff, List.find?_eq_none] at h
  have hfits := h (_, i) (List.mem_zipIdx_iff_getElem?.2 hi)
  have hfree : s.isTaken i = false := by
    rw [Bool.eq_false_iff, Ne, hs i _ digest hi, hrank]
    exact Nat.lt_irrefl _
  change ¬(!s.isTaken i && digest == digest) = true at hfits
  rw [hfree, beq_self_eq_true] at hfits
  exact hfits rfl

/-- A new file takes the old file that is found for it. -/
theorem Follows.take (hs : s.Follows gone seen) (hq : gone[i]? = some (q, digest))
    (hrank : rankOf gone digest i = (withDigest seen digest).length) (p : Path) :
    ((s.take i).addPaired p).Follows gone (seen ++ [(p, digest)]) := by
  intro j q' d hj
  change (s.take i).isTaken j = true ↔ _
  rw [isTaken_take, Bool.or_eq_true, beq_iff_eq, hs j q' d hj, withDigest_append, List.length_append]
  by_cases hd : digest = d
  · subst hd
    have hlast : rankOf gone digest j < rankOf gone digest i + 1 ↔
        rankOf gone digest j = rankOf gone digest i ∨ rankOf gone digest j < rankOf gone digest i := by
      rw [Nat.lt_succ_iff, Nat.le_iff_lt_or_eq, or_comm]
    rw [withDigest_cons_self, ← hrank]
    refine Iff.trans (or_congr_left ⟨fun h => by rw [h], eq_of_rankOf_eq hj hq⟩) hlast.symm
  · rw [withDigest_cons_of_ne hd]
    refine or_iff_right ?_
    rintro rfl
    rw [hq] at hj
    exact hd (Prod.mk.inj (Option.some.inj hj)).2

theorem Follows.leave (hs : s.Follows gone seen)
    (hall : (withDigest gone digest).length ≤ (withDigest seen digest).length) (p : Path) :
    s.Follows gone (seen ++ [(p, digest)]) := by
  intro j q d hj
  have hlt := rankOf_lt_length hj
  rw [hs j q d hj, withDigest_append, List.length_append]
  by_cases hd : digest = d
  · subst hd
    exact iff_of_true (Nat.lt_of_lt_of_le hlt hall) (Nat.lt_of_lt_of_le hlt (Nat.le_add_right_of_le hall))
  · rw [withDigest_cons_of_ne hd]
    rfl

/-! ## The whole pairing -/

theorem renames_cons_some (fresh : List (Path × FileDigest))
    (h : s.candidate? gone digest = some (q, i)) :
    renames gone ((p, digest) :: fresh) s =
      (.renamed q p :: (renames gone fresh ((s.take i).addPaired p)).1,
        (renames gone fresh ((s.take i).addPaired p)).2) := by
  rw [renames, h]

theorem renames_cons_none (p : Path) (fresh : List (Path × FileDigest))
    (h : s.candidate? gone digest = none) :
    renames gone ((p, digest) :: fresh) s = renames gone fresh s := by
  rw [renames, h]

theorem Follows.renames (hs : s.Follows gone seen) (fresh : List (Path × FileDigest)) :
    (Pairing.renames gone fresh s).2.Follows gone (seen ++ fresh) := by
  induction fresh generalizing s seen with
  | nil =>
      rw [List.append_nil]
      exact hs
  | cons file fresh ih =>
      obtain ⟨p, digest⟩ := file
      rw [List.append_cons]
      cases h : s.candidate? gone digest with
      | some found =>
          obtain ⟨hq, hrank⟩ := hs.candidate?_eq_some h
          rw [renames_cons_some fresh h]
          exact ih (hs.take hq hrank p)
      | none =>
          rw [renames_cons_none p fresh h]
          exact ih (hs.leave (hs.candidate?_eq_none h) p)

theorem paired_renames (gone fresh : List (Path × FileDigest)) (s : Pairing) :
    (renames gone fresh s).2.paired = s.paired ++ (renames gone fresh s).1.map Change.path := by
  induction fresh generalizing s with
  | nil => exact (List.append_nil _).symm
  | cons file fresh ih =>
      obtain ⟨p, digest⟩ := file
      cases h : s.candidate? gone digest with
      | some found =>
          rw [renames_cons_some fresh h, ih, List.map_cons]
          exact List.append_assoc _ _ _
      | none => rw [renames_cons_none p fresh h, ih]

theorem sublist_renames (gone fresh : List (Path × FileDigest)) (s : Pairing) :
    ((renames gone fresh s).1.map Change.path).Sublist (fresh.map (·.1)) := by
  induction fresh generalizing s with
  | nil => exact .slnil
  | cons file fresh ih =>
      obtain ⟨p, digest⟩ := file
      cases h : s.candidate? gone digest with
      | some found =>
          rw [renames_cons_some fresh h]
          exact (ih _).cons_cons p
      | none =>
          rw [renames_cons_none p fresh h]
          exact (ih _).cons p

/-- A rename is of a new file and the old file that has the same rank. -/
theorem Follows.mem_renames (hs : s.Follows gone seen) {c : Change} :
    c ∈ (Pairing.renames gone fresh s).1 ↔ ∃ digest i j q p,
      gone[i]? = some (q, digest) ∧ fresh[j]? = some (p, digest) ∧
      rankOf gone digest i = (withDigest seen digest).length + rankOf fresh digest j ∧
      c = .renamed q p := by
  induction fresh generalizing s seen with
  | nil => simp [Pairing.renames]
  | cons file fresh ih =>
      obtain ⟨p, d⟩ := file
      -- the files after the first one have the ranks that they have once it has been seen
      have htail (digest : FileDigest) (j : Nat) : (withDigest seen digest).length +
          rankOf ((p, d) :: fresh) digest (j + 1) =
            (withDigest (seen ++ [(p, d)]) digest).length + rankOf fresh digest j := by
        rw [rankOf_cons_succ, withDigest_append, List.length_append, Nat.add_assoc]
      cases h : s.candidate? gone d with
      | some found =>
          obtain ⟨hq, hrank⟩ := hs.candidate?_eq_some h
          rw [renames_cons_some fresh h, List.mem_cons, ih (hs.take hq hrank p)]
          constructor
          · rintro (rfl | ⟨digest, i, j, q, p', hi, hj, hsame, rfl⟩)
            · exact ⟨d, found.2, 0, found.1, p, hq, rfl, hrank, rfl⟩
            · exact ⟨digest, i, j + 1, q, p', hi, hj, hsame.trans (htail digest j).symm, rfl⟩
          · rintro ⟨digest, i, j, q, p', hi, hj, hsame, rfl⟩
            cases j with
            | zero =>
                obtain ⟨rfl, rfl⟩ := Prod.mk.inj (Option.some.inj hj)
                obtain rfl := eq_of_rankOf_eq hi hq (hsame.trans hrank.symm)
                rw [hq] at hi
                rw [(Prod.mk.inj (Option.some.inj hi)).1]
                exact .inl rfl
            | succ j => exact .inr ⟨digest, i, j, q, p', hi, hj, hsame.trans (htail digest j), rfl⟩
      | none =>
          have hall := hs.candidate?_eq_none h
          rw [renames_cons_none p fresh h, ih (hs.leave hall p)]
          constructor
          · rintro ⟨digest, i, j, q, p', hi, hj, hsame, rfl⟩
            exact ⟨digest, i, j + 1, q, p', hi, hj, hsame.trans (htail digest j).symm, rfl⟩
          · rintro ⟨digest, i, j, q, p', hi, hj, hsame, rfl⟩
            cases j with
            | zero =>
                obtain ⟨rfl, rfl⟩ := Prod.mk.inj (Option.some.inj hj)
                have hlt := rankOf_lt_length hi
                rw [hsame] at hlt
                exact absurd (Nat.lt_of_lt_of_le hlt hall) (Nat.lt_irrefl _)
            | succ j => exact ⟨digest, i, j, q, p', hi, hj, hsame.trans (htail digest j), rfl⟩

theorem mem_deletionsOf (hs : s.Follows gone fresh) {c : Change} :
    c ∈ s.deletionsOf gone ↔ ∃ digest, ∃ k : Nat, ∃ q,
      (withDigest fresh digest).length ≤ k ∧ (withDigest gone digest)[k]? = some q ∧ c = .deleted q := by
  have hfree {i : Nat} {q : Path} {digest : FileDigest} (hi : gone[i]? = some (q, digest)) :
      (!s.isTaken i) = true ↔ (withDigest fresh digest).length ≤ rankOf gone digest i := by
    rw [Bool.not_eq_true', Bool.eq_false_iff, Ne, hs i q digest hi, Nat.not_lt]
  rw [deletionsOf, List.mem_map]
  constructor
  · rintro ⟨⟨⟨q, digest⟩, i⟩, hmem, rfl⟩
    obtain ⟨hi, hleft⟩ := List.mem_filter.1 hmem
    rw [List.mem_zipIdx_iff_getElem?] at hi
    exact ⟨digest, rankOf gone digest i, q, (hfree hi).1 hleft, getElem?_withDigest.2 ⟨i, hi, rfl⟩, rfl⟩
  · rintro ⟨digest, k, q, hk, hq, rfl⟩
    obtain ⟨i, hi, rfl⟩ := getElem?_withDigest.1 hq
    exact ⟨((q, digest), i),
      List.mem_filter.2 ⟨List.mem_zipIdx_iff_getElem?.2 hi, (hfree hi).2 hk⟩, rfl⟩

/-- The new files of each digest are paired with the old ones in order. -/
theorem mem_renames_start {c : Change} :
    c ∈ (renames gone fresh {}).1 ↔ ∃ digest, ∃ k : Nat, ∃ q p,
      (withDigest gone digest)[k]? = some q ∧ (withDigest fresh digest)[k]? = some p ∧
      c = .renamed q p := by
  rw [(follows_nil gone).mem_renames]
  constructor
  · rintro ⟨digest, i, j, q, p, hi, hj, hsame, rfl⟩
    have hrank : rankOf gone digest i = rankOf fresh digest j := hsame.trans (Nat.zero_add _)
    exact ⟨digest, rankOf gone digest i, q, p, getElem?_withDigest.2 ⟨i, hi, rfl⟩,
      getElem?_withDigest.2 ⟨j, hj, hrank.symm⟩, rfl⟩
  · rintro ⟨digest, k, q, p, hq, hp, rfl⟩
    obtain ⟨i, hi, hk⟩ := getElem?_withDigest.1 hq
    obtain ⟨j, hj, hk'⟩ := getElem?_withDigest.1 hp
    exact ⟨digest, i, j, q, p, hi, hj, hk.trans (hk'.symm.trans (Nat.zero_add _).symm), rfl⟩

/-- A new file is paired if there are old files enough for all new ones up to it. -/
theorem isPaired_iff (hdistinct : fresh.Pairwise fun a b => a.1.parts ≠ b.1.parts)
    (hp : (withDigest fresh digest)[k]? = some p) :
    (renames gone fresh {}).2.isPaired p = true ↔ k < (withDigest gone digest).length := by
  rw [isPaired, paired_renames, List.any_eq_true]
  constructor
  · rintro ⟨path, hpath, hparts⟩
    obtain ⟨c, hc, rfl⟩ := List.mem_map.1 hpath
    obtain ⟨digest', k', q, p', hq, hp', rfl⟩ := mem_renames_start.1 hc
    obtain ⟨j, hj, hk⟩ := getElem?_withDigest.1 hp
    obtain ⟨j', hj', hk'⟩ := getElem?_withDigest.1 hp'
    have hnodup : (fresh.map (·.1.parts)).Nodup := List.pairwise_map.2 hdistinct
    obtain rfl : j' = j := by
      have hlt : j' < (fresh.map (·.1.parts)).length := by
        rw [List.length_map]
        exact (List.getElem?_eq_some_iff.1 hj').1
      refine (List.getElem?_inj hlt hnodup).1 ?_
      rw [List.getElem?_map, List.getElem?_map, hj, hj']
      exact congrArg some (eq_of_beq hparts)
    obtain ⟨-, rfl⟩ := Prod.mk.inj (Option.some.inj (hj.symm.trans hj'))
    rw [← hk, hk']
    exact (List.getElem?_eq_some_iff.1 hq).1
  · intro hlt
    refine ⟨p, List.mem_map.2 ⟨_, mem_renames_start.2 ⟨digest, k, _, p, List.getElem?_eq_getElem hlt, hp,
      rfl⟩, rfl⟩, beq_self_eq_true _⟩

end

end Pairing

/-! ## The changes between two trees -/

/-- The changes that are due, given the paths of the files that are different, and for each digest the paths
of the files in one tree only that have it. -/
inductive Change.Due (different : Path → Prop) (gone fresh : FileDigest → List Path) : Change → Prop
  | modified {p : Path} (hp : different p) : Due different gone fresh (.modified p)
  | renamed {digest : FileDigest} {k : Nat} {q p : Path} (hq : (gone digest)[k]? = some q)
    (hp : (fresh digest)[k]? = some p) : Due different gone fresh (.renamed q p)
  | added {digest : FileDigest} {k : Nat} {p : Path} (hk : (gone digest).length ≤ k)
    (hp : (fresh digest)[k]? = some p) : Due different gone fresh (.added p)
  | deleted {digest : FileDigest} {k : Nat} {q : Path} (hk : (fresh digest).length ≤ k)
    (hq : (gone digest)[k]? = some q) : Due different gone fresh (.deleted q)

section

variable {different : List Path} {gone fresh : List (Path × FileDigest)} {c : Change}

/-- No file of both trees, and none of one tree only, is listed under a path of another. -/
def Distinct (different : List Path) (gone fresh : List (Path × FileDigest)) : Prop :=
  (different ++ (fresh.map (·.1) ++ gone.map (·.1))).Pairwise fun p q => p.parts ≠ q.parts

theorem Distinct.pairwise_fresh (h : Distinct different gone fresh) :
    fresh.Pairwise fun a b => a.1.parts ≠ b.1.parts := by
  have hfresh := (List.pairwise_append.1 (List.pairwise_append.1 h).2.1).1
  rwa [List.pairwise_map] at hfresh

def addedPaths (gone fresh : List (Path × FileDigest)) : List Path :=
  (fresh.filter fun new => !(Pairing.renames gone fresh {}).2.isPaired new.1).map (·.1)

theorem mem_addedPaths (h : fresh.Pairwise fun a b => a.1.parts ≠ b.1.parts) {p : Path} :
    p ∈ addedPaths gone fresh ↔ ∃ digest, ∃ k : Nat,
      (withDigest gone digest).length ≤ k ∧ (withDigest fresh digest)[k]? = some p := by
  have hleft {digest : FileDigest} {k : Nat} {p : Path} (hp : (withDigest fresh digest)[k]? = some p) :
      (!(Pairing.renames gone fresh {}).2.isPaired p) = true ↔ (withDigest gone digest).length ≤ k := by
    rw [Bool.not_eq_true', Bool.eq_false_iff, Ne, Pairing.isPaired_iff h hp, Nat.not_lt]
  rw [addedPaths, List.mem_map]
  constructor
  · rintro ⟨⟨p, digest⟩, hmem, rfl⟩
    obtain ⟨hfresh, hfree⟩ := List.mem_filter.1 hmem
    obtain ⟨j, hj⟩ := List.getElem?_of_mem hfresh
    have hp := getElem?_withDigest.2 ⟨j, hj, rfl⟩
    exact ⟨digest, _, (hleft hp).1 hfree, hp⟩
  · rintro ⟨digest, k, hk, hp⟩
    obtain ⟨j, hj, -⟩ := getElem?_withDigest.1 hp
    exact ⟨(p, digest), List.mem_filter.2 ⟨List.mem_of_getElem? hj, (hleft hp).2 hk⟩, rfl⟩

theorem between_eq (different : List Path) (gone fresh : List (Path × FileDigest)) :
    Change.between different gone fresh =
      (different.map Change.modified ++ (Pairing.renames gone fresh {}).1 ++
        (addedPaths gone fresh).map Change.added ++
        (Pairing.renames gone fresh {}).2.deletionsOf gone).mergeSort
          fun c d => !decide (d.path < c.path) := by
  rw [addedPaths, List.map_map]
  rfl

/-- The changes between two trees are those that are due. -/
theorem Change.mem_between (h : Distinct different gone fresh) :
    c ∈ between different gone fresh ↔
      Due (· ∈ different) (withDigest gone) (withDigest fresh) c := by
  have hfollows := (Pairing.follows_nil gone).renames fresh
  rw [List.nil_append] at hfollows
  rw [between_eq, List.mem_mergeSort, List.mem_append, List.mem_append, List.mem_append, List.mem_map,
    List.mem_map, Pairing.mem_renames_start, Pairing.mem_deletionsOf hfollows]
  constructor
  · rintro (((⟨p, hp, rfl⟩ | ⟨digest, k, q, p, hq, hp, rfl⟩) | ⟨p, hadded, rfl⟩) |
      ⟨digest, k, q, hk, hq, rfl⟩)
    · exact .modified hp
    · exact .renamed hq hp
    · obtain ⟨digest, k, hk, hp⟩ := (mem_addedPaths h.pairwise_fresh).1 hadded
      exact .added hk hp
    · exact .deleted hk hq
  · rintro (hp | ⟨hq, hp⟩ | ⟨hk, hp⟩ | ⟨hk, hq⟩)
    · exact .inl (.inl (.inl ⟨_, hp, rfl⟩))
    · exact .inl (.inl (.inr ⟨_, _, _, _, hq, hp, rfl⟩))
    · exact .inl (.inr ⟨_, (mem_addedPaths h.pairwise_fresh).2 ⟨_, _, hk, hp⟩, rfl⟩)
    · exact .inr ⟨_, _, _, hk, hq, rfl⟩

theorem sublist_deletionsOf (s : Pairing) (gone : List (Path × FileDigest)) :
    ((s.deletionsOf gone).map Change.path).Sublist (gone.map (·.1)) := by
  have hpaths : gone.map (·.1) = gone.zipIdx.map (·.1.1) := by
    conv_lhs => rw [← List.zipIdx_map_fst 0 gone, List.map_map]
    rfl
  rw [Pairing.deletionsOf, List.map_map, hpaths]
  exact List.filter_sublist.map _

theorem ne_of_mem_addedPaths {p q : Path} (hp : p ∈ (Pairing.renames gone fresh {}).1.map Change.path)
    (hq : q ∈ addedPaths gone fresh) : p.parts ≠ q.parts := by
  intro hparts
  obtain ⟨new, hnew, rfl⟩ := List.mem_map.1 hq
  have hfree := (List.mem_filter.1 hnew).2
  rw [Bool.not_eq_true', Bool.eq_false_iff, Ne, Pairing.isPaired, Pairing.paired_renames,
    List.any_eq_true] at hfree
  exact hfree ⟨p, hp, beq_of_eq hparts⟩

/-- The changes between two trees are listed under different paths, in their order. -/
theorem Change.pairwise_between (h : Distinct different gone fresh) :
    (between different gone fresh).Pairwise fun c d => c.path < d.path := by
  obtain ⟨hdifferent, hrest, hapart⟩ := List.pairwise_append.1 h
  obtain ⟨hfresh, hgone, hapart'⟩ := List.pairwise_append.1 hrest
  have hmoved := Pairing.sublist_renames gone fresh {}
  have hadded : (addedPaths gone fresh).Sublist (fresh.map (·.1)) := List.filter_sublist.map _
  have hdeleted := sublist_deletionsOf (Pairing.renames gone fresh {}).2 gone
  have hall : (different ++ ((Pairing.renames gone fresh {}).1.map Change.path ++ (addedPaths gone fresh ++
      ((Pairing.renames gone fresh {}).2.deletionsOf gone).map Change.path))).Pairwise
        fun p q => p.parts ≠ q.parts := by
    simp only [List.pairwise_append, List.mem_append]
    refine ⟨hdifferent, ⟨hfresh.sublist hmoved, ⟨hfresh.sublist hadded, hgone.sublist hdeleted, ?_⟩, ?_⟩, ?_⟩
    · exact fun p hp q hq => hapart' p (hadded.mem hp) q (hdeleted.mem hq)
    · rintro p hp q (hq | hq)
      · exact ne_of_mem_addedPaths hp hq
      · exact hapart' p (hmoved.mem hp) q (hdeleted.mem hq)
    · rintro p hp q (hq | hq | hq)
      · exact hapart p hp q (List.mem_append_left _ (hmoved.mem hq))
      · exact hapart p hp q (List.mem_append_left _ (hadded.mem hq))
      · exact hapart p hp q (List.mem_append_right _ (hdeleted.mem hq))
  have hpaths (paths : List Path) : (paths.map Change.modified).map path = paths ∧
      (paths.map Change.added).map path = paths := by
    rw [List.map_map, List.map_map]
    exact ⟨List.map_id paths, List.map_id paths⟩
  rw [between_eq]
  rw [← (hpaths different).1, ← (hpaths (addedPaths gone fresh)).2, ← List.map_append, ← List.map_append,
    ← List.map_append, List.pairwise_map, ← List.append_assoc, ← List.append_assoc] at hall
  exact Path.pairwise_mergeSort hall

end

end TokenDiff
