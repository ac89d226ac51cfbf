import TokenDiff.Proofs.Edit.Meeting

/-!
# The middle of a board

A frontier is an array that is overwritten from round to round, and a diagonal keeps what an earlier round
or an earlier search left there. Only the diagonals of the round before are ever read. So a sweep over a
frontier that holds the furthest points of a round leaves the furthest points of the next one
(`sweep_moved`, `sweepBack_moved`), whatever else the frontier held, or it ends with a run up to the first
such point where the searches meet (`sweep_met`, `sweepBack_met`).

The main statement is `middle_divides`: the run that a board is divided at lies on the board, its pairs
match, it is not the whole corner of the board unless no round was allowed for, and it is on a cheapest
path unless every path costs more than the rounds could find out.
-/

namespace TokenDiff

namespace Board

variable {b : Board} {bound d : Nat} {k : Int}

/-! ## The backward search is the forward search of the board turned around -/

theorem turn_entry (before : Int → Int) (d : Nat) (k : Int) :
    b.turn.entry before d k = b.entry before d k := rfl

/-- `retreat` goes back over matching pairs only, and stops at an edge or where the next one does not
match. -/
theorem retreat_spec (b : Board) (x y : Int) :
    b.retreat x y ≤ x ∧
      (∀ i, b.retreat x y ≤ i → i < x →
        0 ≤ i ∧ 0 ≤ y - (x - i) ∧ b.pair i (y - (x - i)) = true) ∧
      ¬ (0 < b.retreat x y ∧ 0 < y - (x - b.retreat x y) ∧
        b.pair (b.retreat x y - 1) (y - (x - b.retreat x y) - 1) = true) := by
  fun_induction retreat b x y with
  | case1 x y h ih =>
      obtain ⟨hle, hpairs, hstop⟩ := ih
      refine ⟨by omega, fun i hi hlt => ?_, ?_⟩
      · rcases eq_or_lt_of_le (Int.le_sub_one_of_lt hlt) with rfl | hlt
        · rw [show y - (x - (x - 1)) = y - 1 by ring]
          exact ⟨by omega, by omega, h.2.2⟩
        · have := hpairs i hi hlt
          rwa [show y - 1 - (x - 1 - i) = y - (x - i) by ring] at this
      · rwa [show y - 1 - (x - 1 - retreat b (x - 1) (y - 1)) =
          y - (x - retreat b (x - 1) (y - 1)) by ring] at hstop
  | case2 x y h =>
      refine ⟨le_rfl, fun i hi hlt => absurd hlt (not_lt.2 hi), ?_⟩
      simpa using h

theorem turn_pair {x y : Int} (hx : 0 < x ∧ x ≤ b.width) (hy : 0 < y ∧ y ≤ b.height) :
    b.turn.pair (b.width - x) (b.height - y) = b.pair (x - 1) (y - 1) := by
  have hcol : b.width - 1 - ((b.width : Int) - x).toNat = (x - 1).toNat := by omega
  have hrow : b.height - 1 - ((b.height : Int) - y).toNat = (y - 1).toNat := by omega
  simp only [pair, turn, hcol, hrow, decide_eq_true (show 0 ≤ (b.width : Int) - x by omega),
    decide_eq_true (show 0 ≤ (b.height : Int) - y by omega),
    decide_eq_true (show 0 ≤ x - 1 by omega), decide_eq_true (show 0 ≤ y - 1 by omega)]

theorem retreat_eq {x y : Int} (hx : x ≤ b.width) (hy : y ≤ b.height) :
    b.retreat x y = b.width - b.turn.advance (b.width - x) (b.height - y) := by
  fun_induction retreat b x y with
  | case1 x y h ih =>
      have hpair := turn_pair (b := b) ⟨h.1, hx⟩ ⟨h.2.1, hy⟩
      rw [advance, if_pos, ih (by omega) (by omega)]
      · rw [show (b.width : Int) - (x - 1) = b.width - x + 1 by ring,
          show (b.height : Int) - (y - 1) = b.height - y + 1 by ring]
      · rw [hpair, turn_width, turn_height]
        exact ⟨by omega, by omega, h.2.2⟩
  | case2 x y h =>
      rw [advance, if_neg]
      · omega
      · rintro ⟨hx', hy', hp⟩
        rw [turn_width] at hx'
        rw [turn_height] at hy'
        rw [turn_pair ⟨by omega, hx⟩ ⟨by omega, hy⟩] at hp
        exact h ⟨by omega, by omega, hp⟩

/-! ## What the frontiers hold -/

/-- The forward frontier after `d` rounds. -/
def Ahead (b : Board) (f : Frontier bound) (d : Nat) : Prop :=
  ∀ k h, b.active d k → f.get k h = b.furthest d k

/-- The backward frontier after `d` rounds. -/
def Behind (b : Board) (f : Frontier bound) (d : Nat) : Prop :=
  ∀ k h, b.active d k → f.get (-k) h = b.width - b.turn.furthest d k

theorem enter_eq {f : Frontier bound} {before : Int → Int}
    (hf : ∀ j h, b.active d j → f.get j h = before j) (hk : b.active (d + 1) k) (hlo hhi hk') :
    enter f (lowest (d + 1 : Nat) b.height) (highest (d + 1 : Nat) b.width) k hlo hhi hk' =
      b.entry before (d + 1) k := by
  have hw := b.width_pos
  have hh := b.height_pos
  have hactive := b.active_iff.1 hk
  push_cast at hactive
  have habove (h : k = lowest (d + 1 : Nat) b.height ∨ k ≠ highest (d + 1 : Nat) b.width) :
      b.active d (k + 1) := by
    rw [lowest_eq_max, highest_eq_min] at h
    rw [active_iff]
    push_cast at h
    omega
  have hbelow (h : k ≠ lowest (d + 1 : Nat) b.height) : b.active d (k - 1) := by
    rw [lowest_eq_max] at h
    rw [active_iff]
    push_cast at h
    omega
  unfold enter entry
  by_cases hlow : k = lowest (d + 1 : Nat) b.height
  · rw [dif_pos hlow, if_pos hlow, hf _ _ (habove (.inl hlow))]
  · rw [dif_neg hlow, if_neg hlow]
    by_cases hhigh : k = highest (d + 1 : Nat) b.width
    · rw [dif_pos hhigh, if_pos hhigh, hf _ _ (hbelow hlow)]
    · rw [dif_neg hhigh, if_neg hhigh, hf _ _ (habove (.inr hhigh)), hf _ _ (hbelow hlow)]
      split_ifs <;> omega

/-- The two frontiers are entered in the same way, seen each from its own corner. -/
theorem enterBack_eq {f : Frontier bound} {before : Int → Int}
    (hf : ∀ j h, b.active d j → f.get (-j) h = b.width - before j) (hk : b.active (d + 1) (-k))
    (hlo hhi hk') :
    enterBack f (-highest (d + 1 : Nat) b.width) (-lowest (d + 1 : Nat) b.height) k hlo hhi hk' =
      b.width - b.entry before (d + 1) (-k) := by
  have hw := b.width_pos
  have hh := b.height_pos
  have hactive := b.active_iff.1 hk
  push_cast at hactive
  have hbelow (h : k = -lowest (d + 1 : Nat) b.height ∨ k ≠ -highest (d + 1 : Nat) b.width) (hin) :
      f.get (k - 1) hin = b.width - before (-k + 1) := by
    rw [lowest_eq_max, highest_eq_min] at h
    have hget := hf (-k + 1) (by omega) (by rw [active_iff]; push_cast at h; omega)
    simpa only [show -(-k + 1) = k - 1 by ring] using hget
  have habove (h : k ≠ -lowest (d + 1 : Nat) b.height) (hin) :
      f.get (k + 1) hin = b.width - before (-k - 1) := by
    rw [lowest_eq_max] at h
    have hget := hf (-k - 1) (by omega) (by rw [active_iff]; push_cast at h; omega)
    simpa only [show -(-k - 1) = k + 1 by ring] using hget
  unfold enterBack entry
  by_cases hlow : k = -lowest (d + 1 : Nat) b.height
  · rw [dif_pos hlow, if_pos (by omega), hbelow (.inl hlow)]
  · rw [dif_neg hlow, if_neg (by omega)]
    by_cases hhigh : k = -highest (d + 1 : Nat) b.width
    · rw [dif_pos hhigh, if_pos (by omega), habove hlow]
      ring
    · rw [dif_neg hhigh, habove hlow, hbelow (.inr hhigh)]
      split_ifs <;> omega

/-! ## Sweeps -/

theorem meets_eq_true_iff {backward : Frontier bound} (hback : b.Behind backward d) (hd)
    (hk : b.active (d + 1) k) (u : Int) :
    b.meets backward (d + 1) hd k u = true ↔
      b.active d (b.delta - k) ∧ b.width ≤ u + b.turn.furthest d (b.delta - k) := by
  have hround : ((d + 1 : Nat) : Int) - 1 = d := by push_cast; ring
  have hparity := hk.2
  push_cast at hparity
  have hget (hin) (h : b.active d (b.delta - k)) :
      backward.get (k - b.delta) hin = b.width - b.turn.furthest d (b.delta - k) := by
    have := hback (b.delta - k) (by omega) h
    simpa only [neg_sub] using this
  unfold meets
  split_ifs with h
  · have hj : b.active d (b.delta - k) := by
      refine ⟨?_, by omega⟩
      rw [← hround]
      exact h.2
    rw [decide_eq_true_iff, hget _ hj]
    constructor
    · intro hle
      exact ⟨hj, by omega⟩
    · rintro ⟨-, hle⟩
      omega
  · constructor
    · intro hfalse
      exact absurd hfalse (by simp)
    · rintro ⟨hj, -⟩
      refine absurd ⟨by have := hj.2; omega, ?_⟩ h
      rw [hround]
      exact hj.1

theorem meetsBack_eq_true_iff {forward : Frontier bound} (hfor : b.Ahead forward d) (hd)
    (hk : b.active d (-k)) (x : Int) :
    b.meetsBack forward d hd k x = true ↔
      b.active d (k + b.delta) ∧ x ≤ b.furthest d (k + b.delta) := by
  have hparity := hk.2
  unfold meetsBack
  split_ifs with h
  · have hj : b.active d (k + b.delta) := ⟨h.2, by omega⟩
    rw [decide_eq_true_iff, hfor _ _ hj]
    constructor
    · intro hle
      exact ⟨hj, hle⟩
    · rintro ⟨-, hle⟩
      exact hle
  · constructor
    · intro hfalse
      exact absurd hfalse (by simp)
    · rintro ⟨hj, -⟩
      exact absurd ⟨by have := hj.2; omega, hj.1⟩ h

def forwardRun (b : Board) (d : Nat) (k : Int) : Run :=
  ⟨b.entry (b.furthest d) (d + 1) k, b.furthest (d + 1) k,
    b.entry (b.furthest d) (d + 1) k - k, b.furthest (d + 1) k - k⟩

/-- A forward sweep that has gone up to diagonal `k`: the diagonals of the round before are as they were,
and those below `k` are moved on. -/
structure Sweeping (b : Board) (d : Nat) (k : Int) (f : Frontier bound) : Prop where
  parity : (k - (d + 1 : Nat)) % 2 = 0
  before : b.Ahead f d
  moved : ∀ j h, b.active (d + 1) j → j < k → f.get j h = b.furthest (d + 1) j

theorem Sweeping.start {f : Frontier bound} (h : b.Ahead f d) :
    b.Sweeping d (lowest (d + 1 : Nat) b.height) f := by
  refine ⟨?_, h, fun j _ hj hlt => absurd hlt (not_lt.2 hj.1.1)⟩
  rw [lowest_eq_max]
  omega

/-- One diagonal of a sweep: it is entered from the round before, and followed. -/
theorem Sweeping.step {f : Frontier bound} (h : b.Sweeping d k f) (hk : b.active (d + 1) k) (hin)
    (hlo hhi hk') :
    let x := enter f (lowest (d + 1 : Nat) b.height) (highest (d + 1 : Nat) b.width) k hlo hhi hk'
    x = b.entry (b.furthest d) (d + 1) k ∧ b.advance x (x - k) = b.furthest (d + 1) k ∧
      b.Sweeping d (k + 2) (f.set k (b.advance x (x - k)) hin) := by
  intro x
  have hx : x = b.entry (b.furthest d) (d + 1) k := enter_eq h.before hk hlo hhi hk'
  have hu : b.advance x (x - k) = b.furthest (d + 1) k := by rw [hx, furthest_succ]
  refine ⟨hx, hu, ?_, fun j hj hactive => ?_, fun j hj hactive hlt => ?_⟩
  · have := h.parity
    omega
  · have hne : j ≠ k := by
      have := hactive.2
      have := h.parity
      push_cast at this
      omega
    rw [Frontier.get_set_of_ne _ _ _ _ hne]
    exact h.before j hj hactive
  · by_cases heq : j = k
    · subst heq
      rw [Frontier.get_set_self, hu]
    · rw [Frontier.get_set_of_ne _ _ _ _ heq]
      have := hactive.2
      have := h.parity
      exact h.moved j hj hactive (by omega)

theorem sweep_moved {backward forward forward' : Frontier bound} (hd hk)
    (h : b.Sweeping d k forward)
    (hres : b.sweep backward (d + 1) hd k hk forward = .moved forward') :
    b.Ahead forward' (d + 1) ∧
      ∀ j, k ≤ j → b.active (d + 1) j →
        b.meets backward (d + 1) hd.2 j (b.furthest (d + 1) j) = false := by
  fun_induction sweep b backward (d + 1) hd k hk forward with
  | case1 k hk forward hle low top high x u hmeets => simp at hres
  | case2 k hk forward hle low top high x u hmeets ih =>
      have hactive : b.active (d + 1) k := ⟨⟨hk, hle⟩, h.parity⟩
      obtain ⟨hx, hu, hnext⟩ := h.step hactive (by omega) (by omega) (by omega) ⟨hk, hle⟩
      obtain ⟨hahead, hnot⟩ := ih hnext hres
      refine ⟨hahead, fun j hj hjactive => ?_⟩
      by_cases heq : j = k
      · subst heq
        rw [← hu]
        exact eq_false_of_ne_true hmeets
      · have := hjactive.2
        have := h.parity
        exact hnot j (by omega) hjactive
  | case3 k hk forward hgt =>
      obtain rfl : forward = forward' := by simpa using hres
      refine ⟨fun j hj hactive => h.moved j hj hactive ?_, fun j hj hactive => ?_⟩
      · have := hactive.1.2
        omega
      · have := hactive.1.2
        omega

theorem sweep_met {backward forward forward' : Frontier bound} {run : Run} (hd hk)
    (h : b.Sweeping d k forward)
    (hres : b.sweep backward (d + 1) hd k hk forward = .met run forward') :
    ∃ j, b.active (d + 1) j ∧
      b.meets backward (d + 1) hd.2 j (b.furthest (d + 1) j) = true ∧
      (∀ i, k ≤ i → i < j → b.active (d + 1) i →
        b.meets backward (d + 1) hd.2 i (b.furthest (d + 1) i) = false) ∧
      run = b.forwardRun d j := by
  fun_induction sweep b backward (d + 1) hd k hk forward with
  | case1 k hk forward hle low top high x u hmeets =>
      have hactive : b.active (d + 1) k := ⟨⟨hk, hle⟩, h.parity⟩
      obtain ⟨hx, hu, -⟩ := h.step hactive (by omega) (by omega) (by omega) ⟨hk, hle⟩
      refine ⟨k, hactive, ?_, fun i hi hlt _ => absurd hlt (not_lt.2 hi), ?_⟩
      · rw [← hu]
        exact hmeets
      · simp only [Sweep.met.injEq] at hres
        rw [← hres.1, forwardRun, ← hu, ← hx]
  | case2 k hk forward hle low top high x u hmeets ih =>
      have hactive : b.active (d + 1) k := ⟨⟨hk, hle⟩, h.parity⟩
      obtain ⟨hx, hu, hnext⟩ := h.step hactive (by omega) (by omega) (by omega) ⟨hk, hle⟩
      obtain ⟨j, hj, hmeet, hfirst, hrun⟩ := ih hnext hres
      refine ⟨j, hj, hmeet, fun i hi hlt hiactive => ?_, hrun⟩
      by_cases heq : i = k
      · subst heq
        rw [← hu]
        exact eq_false_of_ne_true hmeets
      · have := hiactive.2
        have := h.parity
        exact hfirst i (by omega) hlt hiactive
  | case3 k hk forward hgt => simp at hres

/-- A run of the backward search in round `d + 1`, on diagonal `k` of the board turned around. -/
def backwardRun (b : Board) (d : Nat) (k : Int) : Run :=
  ⟨b.width - b.turn.furthest (d + 1) k, b.width - b.entry (b.turn.furthest d) (d + 1) k,
    b.height - (b.turn.furthest (d + 1) k - k),
    b.height - (b.entry (b.turn.furthest d) (d + 1) k - k)⟩

/-- A backward sweep that has gone up to diagonal `k`. -/
structure SweepingBack (b : Board) (d : Nat) (k : Int) (f : Frontier bound) : Prop where
  parity : (k - (d + 1 : Nat)) % 2 = 0
  before : b.Behind f d
  moved : ∀ j h, b.active (d + 1) j → -j < k →
    f.get (-j) h = b.width - b.turn.furthest (d + 1) j

theorem SweepingBack.start {f : Frontier bound} (h : b.Behind f d) :
    b.SweepingBack d (-highest (d + 1 : Nat) b.width) f := by
  refine ⟨?_, h, fun j _ hj hlt => absurd hlt (not_lt.2 (neg_le_neg hj.1.2))⟩
  rw [highest_eq_min]
  omega

/-- One diagonal of a backward sweep. -/
theorem SweepingBack.step {f : Frontier bound} (h : b.SweepingBack d k f)
    (hk : b.active (d + 1) (-k)) (hin) (hlo hhi hk') :
    let u := enterBack f (-highest (d + 1 : Nat) b.width) (-lowest (d + 1 : Nat) b.height) k hlo hhi hk'
    u = b.width - b.entry (b.turn.furthest d) (d + 1) (-k) ∧
      b.retreat u (u - k - b.delta) = b.width - b.turn.furthest (d + 1) (-k) ∧
      b.SweepingBack d (k + 2) (f.set k (b.retreat u (u - k - b.delta)) hin) := by
  intro u
  have hdelta : b.delta = b.width - b.height := rfl
  have hu : u = b.width - b.entry (b.turn.furthest d) (d + 1) (-k) :=
    enterBack_eq h.before hk hlo hhi hk'
  have hge := entry_ge (b := b.turn) (fun _ => furthest_ge) hk
  rw [turn_entry] at hge
  have hactive := b.active_iff.1 hk
  push_cast at hactive
  have hx : b.retreat u (u - k - b.delta) = b.width - b.turn.furthest (d + 1) (-k) := by
    rw [retreat_eq (by omega) (by omega), furthest_succ, turn_entry, hu]
    congr 2
    · ring
    · rw [hdelta]
      ring
  refine ⟨hu, hx, ?_, fun j hj hactive => ?_, fun j hj hactive hlt => ?_⟩
  · have := h.parity
    omega
  · have hne : -j ≠ k := by
      have := hactive.2
      have := h.parity
      push_cast at this
      omega
    rw [Frontier.get_set_of_ne _ _ _ _ hne]
    exact h.before j hj hactive
  · by_cases heq : -j = k
    · obtain rfl : j = -k := by omega
      simp only [neg_neg, Frontier.get_set_self, hx]
    · rw [Frontier.get_set_of_ne _ _ _ _ heq]
      have := hactive.2
      have := h.parity
      exact h.moved j hj hactive (by omega)

theorem sweepBack_moved {forward backward backward' : Frontier bound} (hd hk)
    (h : b.SweepingBack d k backward)
    (hres : b.sweepBack forward (d + 1) hd k hk backward = .moved backward') :
    b.Behind backward' (d + 1) ∧
      ∀ j, k ≤ -j → b.active (d + 1) j →
        b.meetsBack forward (d + 1) hd.2 (-j) (b.width - b.turn.furthest (d + 1) j) = false := by
  fun_induction sweepBack b forward (d + 1) hd k hk backward with
  | case1 k hk backward hle low top high u x hmeets => simp at hres
  | case2 k hk backward hle low top high u x hmeets ih =>
      have hactive : b.active (d + 1) (-k) := ⟨⟨by omega, by omega⟩, by have := h.parity; omega⟩
      obtain ⟨hu, hx, hnext⟩ := h.step hactive (by omega) (by omega) (by omega) ⟨hk, hle⟩
      obtain ⟨hbehind, hnot⟩ := ih hnext hres
      refine ⟨hbehind, fun j hj hjactive => ?_⟩
      by_cases heq : -j = k
      · obtain rfl : j = -k := by omega
        rw [← hx, neg_neg]
        exact eq_false_of_ne_true hmeets
      · have := hjactive.2
        have := h.parity
        exact hnot j (by omega) hjactive
  | case3 k hk backward hgt =>
      obtain rfl : backward = backward' := by simpa using hres
      refine ⟨fun j hj hactive => h.moved j hj hactive ?_, fun j hj hactive => ?_⟩
      · have := hactive.1.1
        omega
      · have := hactive.1.1
        omega

theorem sweepBack_met {forward backward backward' : Frontier bound} {run : Run} (hd hk)
    (h : b.SweepingBack d k backward)
    (hres : b.sweepBack forward (d + 1) hd k hk backward = .met run backward') :
    ∃ j, b.active (d + 1) j ∧
      b.meetsBack forward (d + 1) hd.2 (-j) (b.width - b.turn.furthest (d + 1) j) = true ∧
      (∀ i, k ≤ -i → j < i → b.active (d + 1) i →
        b.meetsBack forward (d + 1) hd.2 (-i) (b.width - b.turn.furthest (d + 1) i) = false) ∧
      run = b.backwardRun d j := by
  fun_induction sweepBack b forward (d + 1) hd k hk backward with
  | case1 k hk backward hle low top high u x hmeets =>
      have hactive : b.active (d + 1) (-k) := ⟨⟨by omega, by omega⟩, by have := h.parity; omega⟩
      obtain ⟨hu, hx, -⟩ := h.step hactive (by omega) (by omega) (by omega) ⟨hk, hle⟩
      refine ⟨-k, hactive, ?_, fun i hi hlt _ => absurd hlt (by omega), ?_⟩
      · rw [← hx, neg_neg]
        exact hmeets
      · have hdelta : b.delta = b.width - b.height := rfl
        have hx : x = b.width - b.turn.furthest (d + 1) (-k) := hx
        have hu : u = b.width - b.entry (b.turn.furthest d) (d + 1) (-k) := hu
        simp only [Sweep.met.injEq] at hres
        rw [← hres.1, backwardRun, Run.mk.injEq]
        exact ⟨hx, hu, by omega, by omega⟩
  | case2 k hk backward hle low top high u x hmeets ih =>
      have hactive : b.active (d + 1) (-k) := ⟨⟨by omega, by omega⟩, by have := h.parity; omega⟩
      obtain ⟨hu, hx, hnext⟩ := h.step hactive (by omega) (by omega) (by omega) ⟨hk, hle⟩
      obtain ⟨j, hj, hmeet, hfirst, hrun⟩ := ih hnext hres
      refine ⟨j, hj, hmeet, fun i hi hlt hiactive => ?_, hrun⟩
      by_cases heq : -i = k
      · obtain rfl : i = -k := by omega
        rw [← hx, neg_neg]
        exact eq_false_of_ne_true hmeets
      · have := hiactive.2
        have := h.parity
        exact hfirst i (by omega) hlt hiactive
  | case3 k hk backward hgt => simp at hres

/-! ## The run that a board is divided at -/

/-- A run of matching pairs of the board. -/
structure OnBoard (b : Board) (s : Run) : Prop where
  x_nonneg : 0 ≤ s.x
  y_nonneg : 0 ≤ s.y
  x_le_u : s.x ≤ s.u
  u_le : s.u ≤ b.width
  v_le : s.v ≤ b.height
  diagonal : s.u - s.x = s.v - s.y
  matched : ∀ i, s.x ≤ i → i < s.u → b.pair i (s.y + (i - s.x)) = true

theorem OnBoard.exists_natCast {s : Run} (h : b.OnBoard s) :
    ∃ x u y v : Nat, s = ⟨x, u, y, v⟩ := by
  have hv : 0 ≤ s.v := by
    have := h.diagonal
    have := h.x_le_u
    have := h.y_nonneg
    omega
  obtain ⟨x, hx⟩ := Int.eq_ofNat_of_zero_le h.x_nonneg
  obtain ⟨u, hu⟩ := Int.eq_ofNat_of_zero_le (h.x_nonneg.trans h.x_le_u)
  obtain ⟨y, hy⟩ := Int.eq_ofNat_of_zero_le h.y_nonneg
  obtain ⟨v, hv⟩ := Int.eq_ofNat_of_zero_le hv
  refine ⟨x, u, y, v, ?_⟩
  rw [← hx, ← hu, ← hy, ← hv]

/-- A cheapest path goes along the run. -/
def Cheapest (b : Board) (s : Run) : Prop :=
  b.cost s.x.toNat s.y.toNat + b.turn.cost (b.width - s.u.toNat) (b.height - s.v.toNat) =
    b.cost b.width b.height

/-- What a board is divided at when at most `bound` rounds are allowed for: a run with something before it
or after it, on a cheapest path unless all paths cost more than the rounds could find out. -/
structure Divides (b : Board) (bound : Nat) (s : Run) : Prop extends b.OnBoard s where
  cheapest : b.Cheapest s ∨ 2 * bound < b.cost b.width b.height
  before_lt : 0 < bound → s.x + s.y < b.width + b.height
  after_pos : 0 < bound → 0 < s.u + s.v

/-- The conditions on a run in natural coordinates. -/
theorem Divides.ofNat {x u y v : Nat} (hxu : x ≤ u) (hu : u ≤ b.width) (hv : v ≤ b.height)
    (hdiag : u + y = v + x) (hpairs : ∀ i : Int, x ≤ i → i < u → b.pair i (y + (i - x)) = true)
    (hcheap : b.cost x y + b.turn.cost (b.width - u) (b.height - v) = b.cost b.width b.height ∨
      2 * bound < b.cost b.width b.height)
    (hbefore : 0 < bound → x + y < b.width + b.height) (hafter : 0 < bound → 0 < u + v) :
    b.Divides bound ⟨x, u, y, v⟩ where
  x_nonneg := Int.natCast_nonneg x
  y_nonneg := Int.natCast_nonneg y
  x_le_u := by simp only; omega
  u_le := by simp only; omega
  v_le := by simp only; omega
  diagonal := by simp only; omega
  matched := hpairs
  cheapest := hcheap
  before_lt hbound := by have := hbefore hbound; simp only; omega
  after_pos hbound := by have := hafter hbound; simp only; omega

theorem cost_of_advance {x u y v : Nat} (hdiag : u + y = v + x) (h : b.advance x y = u) :
    b.cost u v = b.cost x y := by
  have hle := b.le_advance x y
  obtain ⟨t, rfl⟩ : ∃ t, u = x + t := Nat.exists_eq_add_of_le (by omega)
  obtain rfl : v = y + t := by omega
  refine b.cost_advance x y t ?_
  rw [h]
  push_cast
  exact le_rfl

theorem cost_of_retreat {x u y v : Nat} (hu : u ≤ b.width) (hv : v ≤ b.height)
    (hdiag : u + y = v + x) (h : b.retreat u v = x) :
    b.turn.cost (b.width - x) (b.height - y) = b.turn.cost (b.width - u) (b.height - v) := by
  have hxu := (b.retreat_spec u v).1
  rw [h] at hxu
  rw [retreat_eq (by omega) (by omega)] at h
  refine cost_of_advance (by omega) ?_
  rw [Nat.cast_sub hu, Nat.cast_sub hv, Nat.cast_sub (by omega)]
  omega

theorem entry_one (hk : b.active 1 k) :
    b.entry (b.furthest 0) 1 k + (b.entry (b.furthest 0) 1 k - k) = 1 := by
  have hzero (j : Int) : b.furthest 0 j = 0 := rfl
  rcases entry_eq_or (b.furthest 0) hk with ⟨hprev, heq⟩ | ⟨hprev, heq⟩
  · have := b.active_iff.1 hprev
    rw [heq, hzero]
    omega
  · have := b.active_iff.1 hprev
    rw [heq, hzero]
    omega

/-- The run of a forward search that meets the backward search. -/
theorem forwardRun_divides (hstart : b.likely 0 0 = false) (hend : b.turn.likely 0 0 = false)
    (h : b.Searching (d + 1)) (hk : b.active (d + 1) k) (hj : b.active d (b.delta - k))
    (hmeet : b.width ≤ b.furthest (d + 1) k + b.turn.furthest d (b.delta - k)) :
    b.Divides bound (b.forwardRun d k) := by
  have hdelta : b.delta = b.width - b.height := rfl
  have hinside := h.inside (Nat.succ_pos d) (Nat.le_succ d) le_rfl hk hj
  have hge := entry_ge (fun _ => furthest_ge) hk
  have hge' := furthest_ge hj
  have hle := entry_le_furthest (b := b) d k
  have hactive := b.active_iff.1 hk
  have hjactive := b.active_iff.1 hj
  push_cast at hactive
  obtain ⟨u, hu⟩ := Int.eq_ofNat_of_zero_le (show 0 ≤ b.furthest (d + 1) k by omega)
  obtain ⟨v, hv⟩ := Int.eq_ofNat_of_zero_le (show 0 ≤ b.furthest (d + 1) k - k by omega)
  obtain ⟨x, hx⟩ := Int.eq_ofNat_of_zero_le
    (show 0 ≤ b.entry (b.furthest d) (d + 1) k by omega)
  obtain ⟨y, hy⟩ := Int.eq_ofNat_of_zero_le
    (show 0 ≤ b.entry (b.furthest d) (d + 1) k - k by omega)
  have hcost := h.cost_eq hstart hend (Nat.succ_pos d) (Nat.le_succ d) le_rfl hk hj hmeet hu hv
    (x := (b.width - b.turn.furthest d (b.delta - k)).toNat)
    (y := (b.height - (b.turn.furthest d (b.delta - k) - (b.delta - k))).toNat) (by omega) (by omega)
  have hadvance : b.advance x y = u := by
    rw [← hx, ← hy, ← furthest_succ, hu]
  have hsame : b.cost u v = b.cost x y := cost_of_advance (by omega) hadvance
  have hrun : b.forwardRun d k = ⟨x, u, y, v⟩ := by
    rw [forwardRun, hv, hy, hu, hx]
  have hfirst : x + y < b.width + b.height := by
    by_contra hcorner
    -- then a single step would lead to the far corner
    have hw := b.width_pos
    have hh := b.height_pos
    have hlt := h.lt_cost hstart hend
    have htotal : b.cost u v = b.cost b.width b.height := by
      congr 1 <;> omega
    obtain rfl : d = 0 := by omega
    have hone := b.entry_one hk
    rw [Nat.zero_add] at hx hy
    omega
  rw [hrun]
  refine .ofNat (by omega) (by omega) (by omega) (by omega) (fun i hi hlt => ?_) (.inl (by omega))
    (fun _ => hfirst) (fun _ => by omega)
  have := ((b.advance_spec (b.entry (b.furthest d) (d + 1) k)
    (b.entry (b.furthest d) (d + 1) k - k)).2.1 i (by rwa [hx]) (by rwa [← furthest_succ, hu])).2.2
  rwa [hy, hx] at this

/-- The run of a backward search that meets the forward search. -/
theorem backwardRun_divides (hstart : b.likely 0 0 = false) (hend : b.turn.likely 0 0 = false)
    (h : b.Searching (d + 1)) (hj : b.active (d + 1) k) (hk : b.active (d + 1) (b.delta - k))
    (hmeet : b.width ≤ b.furthest (d + 1) (b.delta - k) + b.turn.furthest (d + 1) k) :
    b.Divides bound (b.backwardRun d k) := by
  have hdelta : b.delta = b.width - b.height := rfl
  have hback : b.delta - (b.delta - k) = k := sub_sub_cancel _ _
  have hj' : b.turn.active (d + 1) (b.delta - (b.delta - k)) := by rwa [hback]
  have hinside := h.inside (Nat.succ_pos d) le_rfl (Nat.le_succ _) hk hj'
  rw [hback] at hinside
  have hge := entry_ge (b := b.turn) (fun _ => furthest_ge) hj
  rw [turn_entry] at hge
  have hge' := furthest_ge hk
  have hle := entry_le_furthest (b := b.turn) d k
  rw [turn_entry] at hle
  have hactive := b.active_iff.1 hk
  have hjactive := b.active_iff.1 hj
  push_cast at hactive hjactive
  obtain ⟨x, hx⟩ := Int.eq_ofNat_of_zero_le
    (show 0 ≤ b.width - b.turn.furthest (d + 1) k by omega)
  obtain ⟨y, hy⟩ := Int.eq_ofNat_of_zero_le
    (show 0 ≤ b.height - (b.turn.furthest (d + 1) k - k) by omega)
  obtain ⟨u, hu⟩ := Int.eq_ofNat_of_zero_le
    (show 0 ≤ b.width - b.entry (b.turn.furthest d) (d + 1) k by omega)
  obtain ⟨v, hv⟩ := Int.eq_ofNat_of_zero_le
    (show 0 ≤ b.height - (b.entry (b.turn.furthest d) (d + 1) k - k) by omega)
  have hcost := h.cost_eq hstart hend (Nat.succ_pos d) le_rfl (Nat.le_succ _) hk hj'
    (by rwa [hback]) (u := (b.furthest (d + 1) (b.delta - k)).toNat)
    (v := (b.furthest (d + 1) (b.delta - k) - (b.delta - k)).toNat) (x := x) (y := y) (by omega)
    (by omega) (by rw [hback]; omega) (by rw [hback]; omega)
  have hrun : b.backwardRun d k = ⟨x, u, y, v⟩ := by
    rw [backwardRun, hv, hy, hu, hx]
  have hretreat : b.retreat u v = x := by
    rw [retreat_eq (by omega) (by omega), ← hx, furthest_succ, turn_entry]
    congr 2 <;> omega
  have hsame := cost_of_retreat (b := b) (x := x) (u := u) (y := y) (v := v) (by omega) (by omega)
    (by omega) hretreat
  have hlast : 0 < u + v := by
    by_contra hcorner
    have hlt := h.lt_cost hstart hend
    have hzero : b.cost x y = 0 := by
      obtain rfl : x = 0 := by omega
      obtain rfl : y = 0 := by omega
      exact cost_origin
    omega
  rw [hrun]
  refine .ofNat (by omega) (by omega) (by omega) (by omega) (fun i hi hlt => ?_) (.inl (by omega))
    (fun _ => by omega) (fun _ => hlast)
  have := ((b.retreat_spec u v).2.1 i (by rwa [hretreat]) hlt).2.2
  rwa [show (v : Int) - (u - i) = y + (i - x) by omega] at this

/-- The run through the middle of a board, when no path is cheap enough for the rounds to find it. -/
theorem centre_divides (h : 2 * bound < b.cost b.width b.height) : b.Divides bound b.centre := by
  have hw := b.width_pos
  have hh := b.height_pos
  have hadv := b.advance_spec (b.width / 2) (b.height / 2)
  have hadv' := b.advance_le (b.width / 2) (b.height / 2)
  have hret := b.retreat_spec (b.width / 2) (b.height / 2)
  have htotal := b.cost_add_lcs b.width b.height
  -- going back stops at the edges of the board
  have hx : 0 ≤ b.retreat (b.width / 2) (b.height / 2) ∧
      0 ≤ (b.height : Int) / 2 - (b.width / 2 - b.retreat (b.width / 2) (b.height / 2)) := by
    rcases hret.1.eq_or_lt with heq | hlt
    · omega
    · have := hret.2.1 _ le_rfl hlt
      omega
  obtain ⟨x, hx'⟩ := Int.eq_ofNat_of_zero_le hx.1
  obtain ⟨y, hy'⟩ := Int.eq_ofNat_of_zero_le hx.2
  obtain ⟨u, hu'⟩ := Int.eq_ofNat_of_zero_le
    (show 0 ≤ b.advance (b.width / 2) (b.height / 2) by omega)
  obtain ⟨v, hv'⟩ := Int.eq_ofNat_of_zero_le
    (show 0 ≤ (b.height : Int) / 2 + (b.advance (b.width / 2) (b.height / 2) - b.width / 2) by omega)
  have hrun : b.centre = ⟨x, u, y, v⟩ := by
    simp only [centre]
    rw [hv', hy', hu', hx']
  rw [hrun]
  refine .ofNat (by omega) (by omega) (by omega) (by omega) (fun i hi hlt => ?_) (.inr h)
    (fun _ => by omega) (fun _ => by omega)
  rcases lt_or_ge i (b.width / 2) with hside | hside
  · have := (hret.2.1 i (by omega) hside).2.2
    rwa [show (b.height : Int) / 2 - (b.width / 2 - i) = y + (i - x) by omega] at this
  · have := (hadv.2.1 i hside (by omega)).2.2
    rwa [show (b.height : Int) / 2 + (i - b.width / 2) = y + (i - x) by omega] at this

/-! ## The rounds -/

theorem Searching.succ (h : b.Searching (d + 1))
    (hfor : ∀ k, b.active (d + 1) k → b.active d (b.delta - k) →
      ¬ b.width ≤ b.furthest (d + 1) k + b.turn.furthest d (b.delta - k))
    (hback : ∀ k, b.active (d + 1) k → b.active (d + 1) (b.delta - k) →
      ¬ b.width ≤ b.furthest (d + 1) (b.delta - k) + b.turn.furthest (d + 1) k) :
    b.Searching (d + 2) := by
  intro p q hp hqp hpq
  rcases Nat.lt_succ_iff_lt_or_eq.1 hp with hlt | rfl
  · exact h p q hlt hqp hpq
  · intro k hk hj
    rcases hqp.eq_or_lt with rfl | hlt
    · have := hback (b.delta - k) hj (by rwa [sub_sub_cancel])
      rw [sub_sub_cancel] at this
      omega
    · obtain rfl : q = d := by omega
      have := hfor k hk hj
      omega

/-- The rounds end with a run that divides the board. -/
theorem rounds_divides (hstart : b.likely 0 0 = false) (hend : b.turn.likely 0 0 = false)
    {f : Frontiers bound} {e : Nat} (he : 0 < e) (hd : e = d + 1) (hahead : b.Ahead f.forward d)
    (hbehind : b.Behind f.backward d) (h : b.Searching e) :
    b.Divides bound (b.rounds e he f).1 := by
  fun_induction rounds b e he f generalizing d with
  | case1 e he f hle run forward hsweep =>
      subst hd
      obtain ⟨j, hj, hmeets, -, rfl⟩ := sweep_met ⟨he, hle⟩ _ (.start hahead) hsweep
      obtain ⟨hj', hmeet⟩ := (meets_eq_true_iff hbehind hle hj _).1 hmeets
      exact forwardRun_divides hstart hend h hj hj' hmeet
  | case2 e he f hle forward hsweep run backward hsweep' =>
      subst hd
      obtain ⟨hahead', -⟩ := sweep_moved ⟨he, hle⟩ _ (.start hahead) hsweep
      obtain ⟨j, hj, hmeets, -, rfl⟩ := sweepBack_met ⟨he, hle⟩ _ (.start hbehind) hsweep'
      obtain ⟨hj', hmeet⟩ :=
        (meetsBack_eq_true_iff hahead' hle (by rwa [neg_neg]) _).1 hmeets
      have hdiag : -j + b.delta = b.delta - j := by ring
      rw [hdiag] at hj' hmeet
      exact backwardRun_divides hstart hend h hj hj' (by omega)
  | case3 e he f hle forward hsweep backward hsweep' ih =>
      subst hd
      obtain ⟨hahead', hfor⟩ := sweep_moved ⟨he, hle⟩ _ (.start hahead) hsweep
      obtain ⟨hbehind', hback⟩ := sweepBack_moved ⟨he, hle⟩ _ (.start hbehind) hsweep'
      refine ih rfl hahead' hbehind' (h.succ (fun k hk hj hmeet => ?_) fun k hk hj hmeet => ?_)
      · have hfalse := hfor k hk.1.1 hk
        rw [(meets_eq_true_iff hbehind hle hk _).2 ⟨hj, hmeet⟩] at hfalse
        exact absurd hfalse (by simp)
      · have hfalse := hback k (neg_le_neg hk.1.2) hk
        have hdiag : -k + b.delta = b.delta - k := by ring
        rw [(meetsBack_eq_true_iff hahead' hle (by rwa [neg_neg]) _).2
          ⟨by rwa [hdiag], by rw [hdiag]; omega⟩] at hfalse
        exact absurd hfalse (by simp)
  | case4 e he f hgt =>
      exact centre_divides (by
        have := h.lt_cost hstart hend
        omega)

theorem advance_origin_pos_iff : 0 < b.advance 0 0 ↔ b.likely 0 0 = true := by
  have hw := b.width_pos
  have hh := b.height_pos
  have hpair : b.pair 0 0 = b.likely 0 0 := b.pair_natCast 0 0
  rw [advance]
  split_ifs with h
  · have := b.le_advance (0 + 1) (0 + 1)
    rw [hpair] at h
    exact ⟨fun _ => h.2.2, fun _ => by omega⟩
  · rw [hpair] at h
    exact ⟨fun hlt => absurd hlt (lt_irrefl 0), fun hlikely => absurd ⟨by omega, by omega, hlikely⟩ h⟩

theorem retreat_corner : b.retreat b.width b.height = b.width - b.turn.advance 0 0 := by
  rw [retreat_eq le_rfl le_rfl, sub_self, sub_self]

theorem retreat_corner_lt_iff : b.retreat b.width b.height < b.width ↔ b.turn.likely 0 0 = true := by
  rw [← advance_origin_pos_iff, retreat_corner]
  omega

theorem middle_of_likely (f : Frontiers bound) (h : b.likely 0 0 = true) :
    (b.middle f).1 = ⟨0, b.advance 0 0, 0, b.advance 0 0⟩ := by
  simp only [middle, if_pos (advance_origin_pos_iff.2 h)]

theorem middle_of_turn_likely (f : Frontiers bound) (h : b.likely 0 0 = false)
    (h' : b.turn.likely 0 0 = true) :
    (b.middle f).1 = ⟨b.retreat b.width b.height, b.width,
      b.retreat b.width b.height - b.delta, b.height⟩ := by
  have hfirst : ¬ 0 < b.advance 0 0 := by simp [advance_origin_pos_iff, h]
  simp only [middle, if_neg hfirst, if_pos (retreat_corner_lt_iff.2 h')]

theorem cost_turn : b.turn.cost b.width b.height = b.cost b.width b.height := by
  have hturn : lcs b.turn.likely (b.width - 0) (b.height - 0) =
      Rect.lcs b.likely ⟨0, 0, b.width, b.height⟩ := Rect.lcs_turn (Nat.zero_le _) (Nat.zero_le _)
  rw [rect_lcs_of_origin] at hturn
  simp only [cost, Nat.sub_zero] at hturn ⊢
  rw [hturn]

/-- The run from the first corner. -/
theorem divides_of_likely (hstart : b.likely 0 0 = true) :
    b.Divides bound ⟨0, b.advance 0 0, 0, b.advance 0 0⟩ := by
  have hpos := advance_origin_pos_iff.2 hstart
  have hadv := b.advance_spec 0 0
  have hle := b.advance_le 0 0
  obtain ⟨u, hu⟩ := Int.eq_ofNat_of_zero_le hpos.le
  have hcost := cost_le_add (b := b) (x := u) (y := u) (by omega) (by omega)
  have hzero : b.cost (0 + u) (0 + u) = b.cost 0 0 := by
    refine b.cost_advance 0 0 u ?_
    simp only [Nat.cast_zero]
    omega
  have hrest := cost_le_cost_add (b := b.turn) (x := b.width - u) (y := b.height - u) u
  rw [Nat.sub_add_cancel (by omega), Nat.sub_add_cancel (by omega), cost_turn] at hrest
  rw [hu]
  refine Divides.ofNat (x := 0) (y := 0) (Nat.zero_le u) (by omega) (by omega) (by omega)
    (fun i hi hlt => ?_) (.inl ?_) (fun _ => by omega) (fun _ => by omega)
  · have := (hadv.2.1 i (by simpa using hi) (by omega)).2.2
    simpa using this
  · rw [Nat.zero_add, cost_origin] at hzero
    rw [cost_origin]
    omega

/-- The run to the far corner. -/
theorem divides_of_turn_likely (hend : b.turn.likely 0 0 = true) :
    b.Divides bound ⟨b.retreat b.width b.height, b.width, b.retreat b.width b.height - b.delta,
      b.height⟩ := by
  have hpos := advance_origin_pos_iff.2 hend
  have hret := b.retreat_spec b.width b.height
  have hle := b.turn.advance_le 0 0
  have hdelta : b.delta = b.width - b.height := rfl
  simp only [turn_width, turn_height] at hle
  have hcorner := retreat_corner (b := b)
  obtain ⟨t, ht⟩ := Int.eq_ofNat_of_zero_le hpos.le
  have hrun : (⟨b.retreat b.width b.height, b.width, b.retreat b.width b.height - b.delta,
      b.height⟩ : Run) = ⟨(b.width - t : Nat), b.width, (b.height - t : Nat), b.height⟩ := by
    rw [Run.mk.injEq]
    exact ⟨by omega, rfl, by omega, rfl⟩
  have hcost := cost_le_add (b := b) (x := b.width - t) (y := b.height - t) (by omega) (by omega)
  have hrest := cost_le_cost_add (b := b) (x := b.width - t) (y := b.height - t) t
  rw [Nat.sub_add_cancel (by omega), Nat.sub_add_cancel (by omega)] at hrest
  have hzero : b.turn.cost (0 + t) (0 + t) = b.turn.cost 0 0 := by
    refine b.turn.cost_advance 0 0 t ?_
    simp only [Nat.cast_zero]
    omega
  rw [hrun]
  refine Divides.ofNat (by omega) le_rfl le_rfl (by omega) (fun i hi hlt => ?_) (.inl ?_)
    (fun _ => by omega) (fun _ => by omega)
  · have := (hret.2.1 i (by omega) hlt).2.2
    rwa [show (b.height : Int) - (b.width - i) =
      ((b.height - t : Nat) : Int) + (i - (b.width - t : Nat)) by omega] at this
  · simp only [Nat.sub_self, Nat.zero_add, cost_origin] at hzero ⊢
    rw [Nat.sub_sub_self (by omega), Nat.sub_sub_self (by omega)] at hcost
    omega

theorem eq_zero_of_active (hk : b.active 0 k) : k = 0 := by
  have hw := b.width_pos
  have hh := b.height_pos
  have := b.active_iff.1 hk
  omega

theorem ahead_start (f : Frontier bound) (hin) : b.Ahead (f.set 0 0 hin) 0 := by
  intro k _ hk
  obtain rfl := eq_zero_of_active hk
  exact Frontier.get_set_self _ _ _ _

theorem behind_start (f : Frontier bound) (hin) : b.Behind (f.set 0 b.width hin) 0 := by
  intro k _ hk
  obtain rfl := eq_zero_of_active hk
  simp [Frontier.get_set_self, furthest]

theorem searching_one (b : Board) : b.Searching 1 := by
  intro p q hp hqp _ k hk hj
  have hw := b.width_pos
  obtain rfl : p = 0 := by omega
  obtain rfl : q = 0 := by omega
  simp only [furthest]
  omega

/-- The run that a board is divided at divides it. -/
theorem middle_divides (b : Board) (f : Frontiers bound) : b.Divides bound (b.middle f).1 := by
  cases hstart : b.likely 0 0 with
  | true =>
      rw [middle_of_likely f hstart]
      exact divides_of_likely hstart
  | false =>
      cases hend : b.turn.likely 0 0 with
      | true =>
          rw [middle_of_turn_likely f hstart hend]
          exact divides_of_turn_likely hend
      | false =>
          have hfirst : ¬ 0 < b.advance 0 0 := by simp [advance_origin_pos_iff, hstart]
          have hlast : ¬ b.retreat b.width b.height < b.width := by simp [retreat_corner_lt_iff, hend]
          simp only [middle, if_neg hfirst, if_neg hlast]
          exact rounds_divides hstart hend one_pos rfl (ahead_start f.forward (by omega))
            (behind_start f.backward (by omega)) b.searching_one

end Board

end TokenDiff
