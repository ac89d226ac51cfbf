import Mathlib.Tactic.SplitIfs
import TokenDiff.Edit.Middle

/-!
# The partial search

A search asks for a proof that each diagonal it looks up is among those of the frontier. Here it is written
once more without any, on diagonals that may be any number: `Frontier.get?` and `Frontier.set?` have no value
off the frontier, and neither has a search that leaves it. The main lemma `Board.middle?_eq_some` says that
this never happens: the partial search always has a value, the one that `Board.middle` has. So the bounds
that carry the proofs are those that the numbers have by themselves.
-/

namespace TokenDiff

variable {bound : Nat}

namespace Frontier

def get? (f : Frontier bound) (k : Int) : Option Int :=
  if h : -(bound : Int) ≤ k ∧ k ≤ bound then some (f.get k h) else none

def set? (f : Frontier bound) (k x : Int) : Option (Frontier bound) :=
  if h : -(bound : Int) ≤ k ∧ k ≤ bound then some (f.set k x h) else none

theorem get?_eq_some (f : Frontier bound) {k : Int} (h : -(bound : Int) ≤ k ∧ k ≤ bound) :
    f.get? k = some (f.get k h) := dif_pos h

theorem set?_eq_some (f : Frontier bound) {k : Int} (x : Int)
    (h : -(bound : Int) ≤ k ∧ k ≤ bound) : f.set? k x = some (f.set k x h) := dif_pos h

end Frontier

namespace Board

def enter? (f : Frontier bound) (lo hi k : Int) : Option Int :=
  if k = lo then f.get? (k + 1)
  else if k = hi then (f.get? (k - 1)).map (· + 1)
  else
    (f.get? (k + 1)).bind fun above =>
      (f.get? (k - 1)).map fun below => if above > below then above else below + 1

def enterBack? (f : Frontier bound) (lo hi k : Int) : Option Int :=
  if k = hi then f.get? (k - 1)
  else if k = lo then (f.get? (k + 1)).map (· - 1)
  else
    (f.get? (k - 1)).bind fun below =>
      (f.get? (k + 1)).map fun above => if below < above then below else above - 1

def meets? (b : Board) (backward : Frontier bound) (d : Nat) (k u : Int) : Option Bool :=
  if b.delta % 2 ≠ 0 ∧
      lowest (d - 1) b.height ≤ b.delta - k ∧ b.delta - k ≤ highest (d - 1) b.width then
    (backward.get? (k - b.delta)).map fun x => decide (u ≥ x)
  else some false

def meetsBack? (b : Board) (forward : Frontier bound) (d : Nat) (k x : Int) : Option Bool :=
  if b.delta % 2 = 0 ∧
      lowest d b.height ≤ k + b.delta ∧ k + b.delta ≤ highest d b.width then
    (forward.get? (k + b.delta)).map fun u => decide (x ≤ u)
  else some false

/-- A round of the forward search. -/
def sweep? (b : Board) (backward : Frontier bound) (d : Nat) (k : Int) (forward : Frontier bound) :
    Option (Sweep bound) :=
  if k ≤ highest d b.width then
    (enter? forward (lowest d b.height) (highest d b.width) k).bind fun x =>
      let u := b.advance x (x - k)
      (b.meets? backward d k u).bind fun met =>
        if met then some (.met ⟨x, u, x - k, u - k⟩ forward)
        else (forward.set? k u).bind (b.sweep? backward d (k + 2))
  else some (.moved forward)
termination_by (highest d b.width + 1 - k).toNat

def sweepBack? (b : Board) (forward : Frontier bound) (d : Nat) (k : Int)
    (backward : Frontier bound) : Option (Sweep bound) :=
  if k ≤ -lowest d b.height then
    (enterBack? backward (-highest d b.width) (-lowest d b.height) k).bind fun u =>
      let x := b.retreat u (u - k - b.delta)
      (b.meetsBack? forward d k x).bind fun met =>
        if met then some (.met ⟨x, u, x - k - b.delta, u - k - b.delta⟩ backward)
        else (backward.set? k x).bind (b.sweepBack? forward d (k + 2))
  else some (.moved backward)
termination_by (-lowest d b.height + 1 - k).toNat

def rounds? (b : Board) (d : Nat) (f : Frontiers bound) : Option (Run × Frontiers bound) :=
  if d ≤ bound then
    (b.sweep? f.backward d (lowest d b.height) f.forward).bind fun
      | .met run forward => some (run, { f with forward })
      | .moved forward =>
        (b.sweepBack? forward d (-highest d b.width) f.backward).bind fun
          | .met run backward => some (run, ⟨forward, backward⟩)
          | .moved backward => b.rounds? (d + 1) ⟨forward, backward⟩
  else some (b.centre, f)
termination_by bound + 1 - d

/-- The run at which a board is divided; `none` as soon as a diagonal is looked up off a frontier. -/
def middle? (b : Board) (f : Frontiers bound) : Option (Run × Frontiers bound) :=
  (f.forward.set? 0 0).bind fun forward =>
    let u := b.advance 0 0
    if 0 < u then some (⟨0, u, 0, u⟩, { f with forward })
    else
      (f.backward.set? 0 b.width).bind fun backward =>
        let x := b.retreat b.width b.height
        if x < b.width then some (⟨x, b.width, x - b.delta, b.height⟩, ⟨forward, backward⟩)
        else b.rounds? 1 ⟨forward, backward⟩

/-! ## The search stays on the frontiers -/

theorem enter?_eq_some (f : Frontier bound) {lo hi k : Int}
    (hlo : -(bound : Int) ≤ lo ∧ lo < bound) (hhi : hi ≤ bound) (hk : lo ≤ k ∧ k ≤ hi) :
    enter? f lo hi k = some (enter f lo hi k hlo hhi hk) := by
  unfold enter? enter
  split_ifs with hlow hhigh hgt
  · exact f.get?_eq_some _
  · rw [f.get?_eq_some (by omega), Option.map_some]
  · rw [f.get?_eq_some (by omega), f.get?_eq_some (by omega), Option.bind_some, Option.map_some,
      if_pos hgt]
  · rw [f.get?_eq_some (by omega), f.get?_eq_some (by omega), Option.bind_some, Option.map_some,
      if_neg hgt]

theorem enterBack?_eq_some (f : Frontier bound) {lo hi k : Int} (hlo : -(bound : Int) ≤ lo)
    (hhi : hi ≤ bound ∧ -(bound : Int) < hi) (hk : lo ≤ k ∧ k ≤ hi) :
    enterBack? f lo hi k = some (enterBack f lo hi k hlo hhi hk) := by
  unfold enterBack? enterBack
  split_ifs with hhigh hlow hlt
  · exact f.get?_eq_some _
  · rw [f.get?_eq_some (by omega), Option.map_some]
  · rw [f.get?_eq_some (by omega), f.get?_eq_some (by omega), Option.bind_some, Option.map_some,
      if_pos hlt]
  · rw [f.get?_eq_some (by omega), f.get?_eq_some (by omega), Option.bind_some, Option.map_some,
      if_neg hlt]

theorem meets?_eq_some (b : Board) (backward : Frontier bound) (d : Nat) (hd : d ≤ bound)
    (k u : Int) : b.meets? backward d k u = some (b.meets backward d hd k u) := by
  have hlow := neg_le_lowest (d - 1) b.height
  have hhigh := highest_le (d - 1) b.width
  unfold meets? meets
  split_ifs with h
  · rw [backward.get?_eq_some (by omega), Option.map_some]
  · rfl

theorem meetsBack?_eq_some (b : Board) (forward : Frontier bound) (d : Nat) (hd : d ≤ bound)
    (k x : Int) : b.meetsBack? forward d k x = some (b.meetsBack forward d hd k x) := by
  have hlow := neg_le_lowest d b.height
  have hhigh := highest_le d b.width
  unfold meetsBack? meetsBack
  split_ifs with h
  · rw [forward.get?_eq_some (by omega), Option.map_some]
  · rfl

theorem sweep?_eq_some (b : Board) (backward : Frontier bound) (d : Nat) (hd : 0 < d ∧ d ≤ bound)
    (k : Int) (hk : lowest d b.height ≤ k) (forward : Frontier bound) :
    b.sweep? backward d k forward = some (b.sweep backward d hd k hk forward) := by
  fun_induction sweep b backward d hd k hk forward with
  | case1 k hk forward hle low top high x u hmeets =>
      rw [sweep?, if_pos hle, enter?_eq_some forward (by omega) (by omega) ⟨hk, hle⟩, Option.bind_some]
      simp only
      rw [b.meets?_eq_some backward d hd.2, Option.bind_some, if_pos hmeets]
  | case2 k hk forward hle low top high x u hmeets ih =>
      rw [sweep?, if_pos hle, enter?_eq_some forward (by omega) (by omega) ⟨hk, hle⟩, Option.bind_some]
      simp only
      rw [b.meets?_eq_some backward d hd.2, Option.bind_some, if_neg hmeets,
        forward.set?_eq_some _ (by omega), Option.bind_some]
      exact ih
  | case3 k hk forward hgt => rw [sweep?, if_neg hgt]

theorem sweepBack?_eq_some (b : Board) (forward : Frontier bound) (d : Nat)
    (hd : 0 < d ∧ d ≤ bound) (k : Int) (hk : -highest d b.width ≤ k) (backward : Frontier bound) :
    b.sweepBack? forward d k backward = some (b.sweepBack forward d hd k hk backward) := by
  fun_induction sweepBack b forward d hd k hk backward with
  | case1 k hk backward hle low top high u x hmeets =>
      rw [sweepBack?, if_pos hle, enterBack?_eq_some backward (by omega) (by omega) ⟨hk, hle⟩,
        Option.bind_some]
      simp only
      rw [b.meetsBack?_eq_some forward d hd.2, Option.bind_some, if_pos hmeets]
  | case2 k hk backward hle low top high u x hmeets ih =>
      rw [sweepBack?, if_pos hle, enterBack?_eq_some backward (by omega) (by omega) ⟨hk, hle⟩,
        Option.bind_some]
      simp only
      rw [b.meetsBack?_eq_some forward d hd.2, Option.bind_some, if_neg hmeets,
        backward.set?_eq_some _ (by omega), Option.bind_some]
      exact ih
  | case3 k hk backward hgt => rw [sweepBack?, if_neg hgt]

theorem rounds?_eq_some (b : Board) (d : Nat) (hd : 0 < d) (f : Frontiers bound) :
    b.rounds? d f = some (b.rounds d hd f) := by
  fun_induction rounds b d hd f with
  | case1 d hd f hle run forward hmet =>
      rw [rounds?, if_pos hle, b.sweep?_eq_some f.backward d ⟨hd, hle⟩ _ (Int.le_refl _), hmet,
        Option.bind_some]
  | case2 d hd f hle forward hmoved run backward hmet =>
      rw [rounds?, if_pos hle, b.sweep?_eq_some f.backward d ⟨hd, hle⟩ _ (Int.le_refl _), hmoved,
        Option.bind_some]
      simp only
      rw [b.sweepBack?_eq_some forward d ⟨hd, hle⟩ _ (Int.le_refl _), hmet, Option.bind_some]
  | case3 d hd f hle forward hmoved backward hmoved' ih =>
      rw [rounds?, if_pos hle, b.sweep?_eq_some f.backward d ⟨hd, hle⟩ _ (Int.le_refl _), hmoved,
        Option.bind_some]
      simp only
      rw [b.sweepBack?_eq_some forward d ⟨hd, hle⟩ _ (Int.le_refl _), hmoved', Option.bind_some]
      exact ih
  | case4 d hd f hgt => rw [rounds?, if_neg hgt]

/-- No diagonal is ever looked up off a frontier, whatever the frontiers hold. -/
theorem middle?_eq_some (b : Board) (f : Frontiers bound) : b.middle? f = some (b.middle f) := by
  unfold middle? middle
  rw [f.forward.set?_eq_some 0 (by omega), Option.bind_some]
  simp only
  split_ifs with hstart hend
  · rfl
  · rw [f.backward.set?_eq_some _ (by omega), Option.bind_some]
  · rw [f.backward.set?_eq_some _ (by omega), Option.bind_some]
    exact b.rounds?_eq_some 1 (by omega) _

end Board

end TokenDiff
