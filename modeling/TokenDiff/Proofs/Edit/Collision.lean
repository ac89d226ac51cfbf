import TokenDiff.Proofs.Answer
import TokenDiff.Proofs.Edit.Script

/-!
# Snakes whose pairs only look alike

The pairs of a snake that the search divides at may match, and need not be equal. What is kept of such a snake
are its maximal runs of equal pairs, `Snake.IsRun`, no matter where the unequal pairs are and how many of them
there are (`confirm_exact`).

A maximal run takes in every other one that it overlaps or touches (`Snake.IsRun.x_le`, `Snake.IsRun.le_u`). So two
runs with a pair in common are the same, and between any other two there is an unequal pair. Since each equal pair is
in a run that is kept, the runs that are kept are all there are.
-/

namespace TokenDiff

variable {σ : Type} {c : Comparison σ} {valid : σ → Prop} {same : Nat → Nat → Bool}

namespace Snake

/-- `r` is a run of equal pairs of the snake `s` that no pair of `s` can be added to. -/
structure IsRun (same : Nat → Nat → Bool) (s r : Snake) : Prop where
  matched : r.Matches same
  nonempty : r.x < r.u
  within : s.x ≤ r.x ∧ r.u ≤ s.u
  diagonal : r.x + s.y = r.y + s.x
  start : r.x = s.x ∨ same (r.x - 1) (r.y - 1) = false
  stop : r.u = s.u ∨ same r.u r.v = false

namespace IsRun

variable {s r t : Snake} {i j : Nat}

theorem x_le (hr : s.IsRun same r) (ht : s.IsRun same t) (h : r.x ≤ t.u) : r.x ≤ t.x := by
  by_contra hlt
  -- the pair before `r` is one of `t` and so is equal, which bars `r` from beginning after it
  have hdiag := hr.diagonal
  have hdiag' := ht.diagonal
  have hwithin := ht.within
  have hpair : same (r.x - 1) (r.y - 1) = true :=
    ht.matched.same_of_holds ⟨⟨by omega, by omega⟩, by omega⟩
  rcases hr.start with heq | hne
  · omega
  · rw [hpair] at hne
    cases hne

theorem le_u (hr : s.IsRun same r) (ht : s.IsRun same t) (h : t.x ≤ r.u) : t.u ≤ r.u := by
  by_contra hlt
  -- likewise the pair after `r` is one of `t`
  have hdiag := hr.diagonal
  have hdiag' := ht.diagonal
  have hwithin := ht.within
  have hrun := hr.matched.diagonal
  have hpair : same r.u r.v = true :=
    ht.matched.same_of_holds ⟨⟨h, by omega⟩, by omega⟩
  rcases hr.stop with heq | hne
  · omega
  · rw [hpair] at hne
    cases hne

theorem eq_of_holds (hr : s.IsRun same r) (ht : s.IsRun same t) (hi : r.Holds i j)
    (hi' : t.Holds i j) : r = t := by
  obtain ⟨⟨hle, hlt⟩, -⟩ := hi
  obtain ⟨⟨hle', hlt'⟩, -⟩ := hi'
  have hx := Nat.le_antisymm (hr.x_le ht (by omega)) (ht.x_le hr (by omega))
  have hu := Nat.le_antisymm (ht.le_u hr (by omega)) (hr.le_u ht (by omega))
  have hdiag := hr.diagonal
  have hdiag' := ht.diagonal
  have hrun := hr.matched.diagonal
  have hrun' := ht.matched.diagonal
  cases r
  cases t
  simp only [Snake.mk.injEq] at *
  omega

theorem lt_of_le (hr : s.IsRun same r) (ht : s.IsRun same t) (h : r.u ≤ t.x) :
    r.u < t.x ∧ r.v < t.y := by
  have hlt := ht.nonempty
  have hdiag := hr.diagonal
  have hdiag' := ht.diagonal
  have hrun := hr.matched.diagonal
  have hne : r.u ≠ t.x := by
    intro heq
    have := hr.le_u ht heq.ge
    omega
  omega

end IsRun

end Snake

/-! ## What is kept of a snake -/

section confirmed

variable {s r : Snake} {k : Nat} (hx : s.x ≤ s.u)

include hx

theorem isRun_of_mem_confirmed (hr : r ∈ confirmed same s) : s.IsRun same r := by
  have hruns := confirmed_runs same s
  have hin := hruns.ascends.of_mem hr
  constructor
  case matched => exact hin.1
  case nonempty => exact hruns.nonempty r hr
  case within =>
    have := hin.2
    omega
  case diagonal => exact hruns.diagonal r hr
  case start => exact hruns.start r hr
  case stop =>
    have hstop := hruns.stop r hr
    rwa [Nat.add_sub_cancel' hx] at hstop

/-- An equal pair of a snake is in one of the runs that are kept, and in one only. -/
theorem existsUnique_confirmed (hk : k < s.u - s.x) (hsame : same (s.x + k) (s.y + k) = true) :
    ∃! r, r ∈ confirmed same s ∧ r.Holds (s.x + k) (s.y + k) := by
  obtain ⟨r, hr, hin⟩ := (confirmed_runs same s).covers k hk hsame
  have hrun := isRun_of_mem_confirmed hx hr
  have hdiag := hrun.diagonal
  have hpair : r.Holds (s.x + k) (s.y + k) := ⟨hin, by omega⟩
  refine ⟨r, ⟨hr, hpair⟩, fun t ht => ?_⟩
  exact (isRun_of_mem_confirmed hx ht.1).eq_of_holds hrun ht.2 hpair

/-- The runs that are kept are all there are. -/
theorem mem_confirmed_iff : r ∈ confirmed same s ↔ s.IsRun same r := by
  refine ⟨isRun_of_mem_confirmed hx, fun hr => ?_⟩
  have hlt := hr.nonempty
  have hwithin := hr.within
  have hdiag := hr.diagonal
  have hcol : s.x + (r.x - s.x) = r.x := by omega
  have hrow : s.y + (r.x - s.x) = r.y := by omega
  have hfirst : r.Holds r.x r.y := ⟨⟨le_rfl, hlt⟩, Nat.add_comm _ _⟩
  have hcover := existsUnique_confirmed (k := r.x - s.x) hx (by omega)
    (by rw [hcol, hrow]; exact hr.matched.same_of_holds hfirst)
  rw [hcol, hrow] at hcover
  obtain ⟨t, ⟨ht, hpair⟩, -⟩ := hcover
  rwa [hr.eq_of_holds (isRun_of_mem_confirmed hx ht) hfirst hpair]

theorem pairwise_confirmed : (confirmed same s).Pairwise fun r t => r.u < t.x ∧ r.v < t.y :=
  (confirmed_runs same s).ascends.pairwise.imp_of_mem fun hr ht hle =>
    (isRun_of_mem_confirmed hx hr).lt_of_le (isRun_of_mem_confirmed hx ht) hle.1

end confirmed

/-- Of a snake inside the two sequences exactly the maximal runs of equal pairs are kept, in ascending order and
each apart from the next. An equal pair is in exactly one of them, and an unequal one in none. -/
theorem confirm_exact (hc : c.Judges valid (fun _ => False) same) {s : Snake} (hx : s.x ≤ s.u)
    (hu : s.u ≤ c.oldCount) (hv : s.v ≤ c.newCount) (hdiag : s.u + s.y = s.v + s.x) :
    ∃ runs : List Snake, Answers valid (c.confirm s) runs valid ∧
      (∀ r, r ∈ runs ↔ s.IsRun same r) ∧
      (runs.Pairwise fun r t => r.u < t.x ∧ r.v < t.y) ∧
      ∀ k, k < s.u - s.x →
        (same (s.x + k) (s.y + k) = true → ∃! r, r ∈ runs ∧ r.Holds (s.x + k) (s.y + k)) ∧
        (same (s.x + k) (s.y + k) = false → ∀ r ∈ runs, ¬ r.Holds (s.x + k) (s.y + k)) := by
  refine ⟨confirmed same s, (confirm_ensures hc hu hv hdiag hx).answers, fun r => mem_confirmed_iff hx,
    pairwise_confirmed hx, fun k hk => ⟨existsUnique_confirmed hx hk, fun hne r hr hpair => ?_⟩⟩
  have hsame := (isRun_of_mem_confirmed hx hr).matched.same_of_holds hpair
  rw [hne] at hsame
  cases hsame

/-- The first and the last pair only look alike here, and so do two in a row between them. -/
theorem confirm_exact_of_collisions :
    (Comparison.ofLists (· / 2) [9, 0, 2, 4, 7, 9, 10, 13] [1, 2, 4, 6, 8, 10, 12]).confirm ⟨1, 8, 0, 7⟩ () =
      .ok [⟨2, 4, 1, 3⟩, ⟨6, 7, 5, 6⟩] () ∧
    ∀ r, r ∈ [⟨2, 4, 1, 3⟩, ⟨6, 7, 5, 6⟩] ↔
      Snake.IsRun (fun i j => [9, 0, 2, 4, 7, 9, 10, 13][i]? == [1, 2, 4, 6, 8, 10, 12][j]?) ⟨1, 8, 0, 7⟩ r := by
  have hrun : (Comparison.ofLists (· / 2) [9, 0, 2, 4, 7, 9, 10, 13] [1, 2, 4, 6, 8, 10, 12]).confirm
      ⟨1, 8, 0, 7⟩ () = .ok [⟨2, 4, 1, 3⟩, ⟨6, 7, 5, 6⟩] () := by
    cbv
  obtain ⟨runs, hanswers, hmem, -⟩ := confirm_exact (s := ⟨1, 8, 0, 7⟩)
    (Comparison.ofLists_decides (· / 2) [9, 0, 2, 4, 7, 9, 10, 13] [1, 2, 4, 6, 8, 10, 12]).equal
    (by decide) (by decide) (by decide) (by decide)
  obtain ⟨t, hout, -⟩ := hanswers () trivial
  obtain rfl : [⟨2, 4, 1, 3⟩, ⟨6, 7, 5, 6⟩] = runs := by
    rw [hrun] at hout
    cases hout
    rfl
  exact ⟨hrun, hmem⟩

end TokenDiff
