import Mathlib.Tactic.Ring
import TokenDiff.Proofs.Edit.Matching

/-!
# Furthest points

The single steps of a cheapest path to a point of a board are its `cost`, the tokens before the point that
a longest common subsequence leaves out. `furthest d k` is what the forward search holds for diagonal `k`
after `d` rounds, written as a recursion on the rounds alone, without frontiers and without the search
from the other corner.

A frontier point may lie off the board, since the search never looks at the far edges. What is proved here
is what remains true then. On the board, a frontier point costs at most as many steps as there were rounds
(`cost_furthest_le`), and no point of that cost is ahead of it (`le_furthest`). A point beyond an edge of
the board has a neighbour that was at that edge one round earlier (`furthest_pred_of_width_lt`,
`furthest_pred_of_height_lt`).
-/

namespace TokenDiff

theorem lowest_eq_max (d height : Int) : lowest d height = max (-d) (d - 2 * height) := by
  unfold lowest
  split <;> omega

theorem highest_eq_min (d width : Int) : highest d width = min d (2 * width - d) := by
  unfold highest
  split <;> omega

namespace Board

variable (b : Board)

/-- The board seen from its far corner. -/
def turn (b : Board) : Board where
  width := b.width
  height := b.height
  likely x y := b.likely (b.width - 1 - x) (b.height - 1 - y)
  width_pos := b.width_pos
  height_pos := b.height_pos

@[simp] theorem turn_width : b.turn.width = b.width := rfl

@[simp] theorem turn_height : b.turn.height = b.height := rfl

@[simp] theorem turn_delta : b.turn.delta = b.delta := rfl

/-- The tokens before a point that no path to it can match, which is the number of its single steps. -/
def cost (b : Board) (x y : Nat) : Nat := x + y - 2 * lcs b.likely x y

theorem cost_add_lcs (x y : Nat) : b.cost x y + 2 * lcs b.likely x y = x + y := by
  have := lcs_le_min b.likely x y
  unfold cost
  omega

section cost

variable {b} {x y : Nat}

@[simp] theorem cost_origin : b.cost 0 0 = 0 := by
  simp [cost]

theorem cost_succ_succ_of_likely (h : b.likely x y = true) :
    b.cost (x + 1) (y + 1) = b.cost x y := by
  have hlcs := lcs_of_same _ _ _ h
  have hpoint := b.cost_add_lcs x y
  have hnext := b.cost_add_lcs (x + 1) (y + 1)
  omega

theorem cost_lt_of_not_likely (h : b.likely x y = false) :
    b.cost x (y + 1) < b.cost (x + 1) (y + 1) ∨ b.cost (x + 1) y < b.cost (x + 1) (y + 1) := by
  have hlcs := lcs_of_not_same _ _ _ h
  have hleft := b.cost_add_lcs x (y + 1)
  have hbelow := b.cost_add_lcs (x + 1) y
  have hnext := b.cost_add_lcs (x + 1) (y + 1)
  omega

theorem cost_succ_left_le : b.cost (x + 1) y ≤ b.cost x y + 1 := by
  have hlcs := lcs_le_lcs b.likely (Nat.le_add_right x 1) (Nat.le_refl y)
  have hpoint := b.cost_add_lcs x y
  have hnext := b.cost_add_lcs (x + 1) y
  omega

theorem cost_succ_right_le : b.cost x (y + 1) ≤ b.cost x y + 1 := by
  have hlcs := lcs_le_lcs b.likely (Nat.le_refl x) (Nat.le_add_right y 1)
  have hpoint := b.cost_add_lcs x y
  have hnext := b.cost_add_lcs x (y + 1)
  omega

theorem cost_le_cost_add (t : Nat) : b.cost x y ≤ b.cost (x + t) (y + t) := by
  induction t with
  | zero => exact le_rfl
  | succ t ih =>
      have hlcs := lcs_succ_succ_le b.likely (x + t) (y + t)
      have hpoint := b.cost_add_lcs (x + t) (y + t)
      have hnext := b.cost_add_lcs (x + t + 1) (y + t + 1)
      rw [← Nat.add_assoc, ← Nat.add_assoc]
      omega

end cost

/-! ## Following a diagonal -/

/-- `advance` goes over matching pairs of the board only, and stops where the next one does not match. -/
theorem advance_spec (x y : Int) :
    x ≤ b.advance x y ∧
      (∀ i, x ≤ i → i < b.advance x y →
        i < b.width ∧ y + (i - x) < b.height ∧ b.pair i (y + (i - x)) = true) ∧
      ¬ (b.advance x y < b.width ∧ y + (b.advance x y - x) < b.height ∧
        b.pair (b.advance x y) (y + (b.advance x y - x)) = true) := by
  fun_induction advance b x y with
  | case1 x y h ih =>
      obtain ⟨hle, hpairs, hstop⟩ := ih
      refine ⟨by omega, fun i hi hlt => ?_, ?_⟩
      · rcases hi.eq_or_lt with rfl | hi
        · simpa using h
        · have := hpairs i hi hlt
          rwa [show y + 1 + (i - (x + 1)) = y + (i - x) by ring] at this
      · rwa [show y + 1 + (advance b (x + 1) (y + 1) - (x + 1)) =
          y + (advance b (x + 1) (y + 1) - x) by ring] at hstop
  | case2 x y h =>
      refine ⟨le_rfl, fun i hi hlt => absurd hlt (not_lt.2 hi), ?_⟩
      simpa using h

theorem le_advance (x y : Int) : x ≤ b.advance x y := (b.advance_spec x y).1

theorem advance_le (x y : Int) :
    b.advance x y ≤ max x b.width ∧ y + (b.advance x y - x) ≤ max y b.height := by
  obtain ⟨hle, hpairs, -⟩ := b.advance_spec x y
  rcases hle.eq_or_lt with heq | hlt
  · omega
  · have := hpairs (b.advance x y - 1) (by omega) (by omega)
    omega

theorem pair_natCast (x y : Nat) : b.pair x y = b.likely x y := by
  simp [pair]

theorem cost_advance (x y t : Nat) (h : (x + t : Int) ≤ b.advance x y) :
    b.cost (x + t) (y + t) = b.cost x y := by
  induction t with
  | zero => rfl
  | succ t ih =>
      have hpair := ((b.advance_spec x y).2.1 (x + t) (by omega) (by omega)).2.2
      rw [show (y : Int) + (x + t - x) = ((y + t : Nat) : Int) by push_cast; ring,
        show (x : Int) + t = ((x + t : Nat) : Int) by push_cast; ring, pair_natCast] at hpair
      rw [← Nat.add_assoc, ← Nat.add_assoc, cost_succ_succ_of_likely hpair]
      exact ih (by omega)

/-! ## The diagonals of a round -/

def active (b : Board) (d : Nat) (k : Int) : Prop :=
  (lowest d b.height ≤ k ∧ k ≤ highest d b.width) ∧ (k - d) % 2 = 0

theorem active_iff {d : Nat} {k : Int} :
    b.active d k ↔ ((-d ≤ k ∧ d - 2 * b.height ≤ k) ∧ k ≤ d ∧ k ≤ 2 * b.width - d) ∧
      (k - d) % 2 = 0 := by
  simp only [active, lowest_eq_max, highest_eq_min, sup_le_iff, le_inf_iff]

/-- The column that a round begins with on a diagonal, given the columns of the round before. -/
def entry (b : Board) (before : Int → Int) (d : Nat) (k : Int) : Int :=
  if k = lowest d b.height then before (k + 1)
  else if k = highest d b.width then before (k - 1) + 1
  else max (before (k + 1)) (before (k - 1) + 1)

def furthest (b : Board) : Nat → Int → Int
  | 0, _ => 0
  | d + 1, k =>
    b.advance (b.entry (b.furthest d) (d + 1) k) (b.entry (b.furthest d) (d + 1) k - k)

section entry

variable {b} (before : Int → Int) {d : Nat} {k : Int}

theorem entry_eq_or (hk : b.active (d + 1) k) :
    (b.active d (k + 1) ∧ b.entry before (d + 1) k = before (k + 1)) ∨
      (b.active d (k - 1) ∧ b.entry before (d + 1) k = before (k - 1) + 1) := by
  have hw := b.width_pos
  have hh := b.height_pos
  simp only [active_iff] at hk ⊢
  simp only [entry, lowest_eq_max, highest_eq_min]
  split_ifs with hlow hhigh
  · exact .inl ⟨by omega, rfl⟩
  · exact .inr ⟨by omega, rfl⟩
  · rcases le_total (before (k - 1) + 1) (before (k + 1)) with hle | hle
    · exact .inl ⟨by omega, max_eq_left hle⟩
    · exact .inr ⟨by omega, max_eq_right hle⟩

theorem le_entry_above (hk : b.active (d + 1) k) (habove : b.active d (k + 1))
    (hlt : k + d + 1 < 2 * b.width) : before (k + 1) ≤ b.entry before (d + 1) k := by
  simp only [active_iff] at hk habove
  simp only [entry, lowest_eq_max, highest_eq_min]
  split_ifs with hlow hhigh
  · exact le_rfl
  · omega
  · exact le_max_left _ _

theorem le_entry_below (hk : b.active (d + 1) k) (hbelow : b.active d (k - 1))
    (hlt : (d : Int) + 1 < k + 2 * b.height) : before (k - 1) + 1 ≤ b.entry before (d + 1) k := by
  simp only [active_iff] at hk hbelow
  simp only [entry, lowest_eq_max, highest_eq_min]
  split_ifs with hlow hhigh
  · omega
  · exact le_rfl
  · exact le_max_right _ _

end entry

/-! ## Where the furthest points lie -/

variable {b} {d : Nat} {k : Int}

theorem furthest_succ (d : Nat) (k : Int) :
    b.furthest (d + 1) k =
      b.advance (b.entry (b.furthest d) (d + 1) k) (b.entry (b.furthest d) (d + 1) k - k) := rfl

theorem entry_le_furthest (d : Nat) (k : Int) :
    b.entry (b.furthest d) (d + 1) k ≤ b.furthest (d + 1) k := b.le_advance _ _

theorem entry_ge {before : Int → Int} (hbefore : ∀ j, b.active d j → d + j ≤ 2 * before j)
    (hk : b.active (d + 1) k) : d + 1 + k ≤ 2 * b.entry before (d + 1) k := by
  rcases entry_eq_or before hk with ⟨hprev, heq⟩ | ⟨hprev, heq⟩
  · have := hbefore _ hprev
    omega
  · have := hbefore _ hprev
    omega

/-- After `d` single steps a path has left at least the first corner behind by as many columns and rows
as its diagonal says. -/
theorem furthest_ge (hk : b.active d k) : d + k ≤ 2 * b.furthest d k := by
  induction d generalizing k with
  | zero =>
      simp only [active_iff] at hk
      simp only [furthest]
      omega
  | succ d ih =>
      have hge := entry_ge (fun _ => ih) hk
      have hle := entry_le_furthest (b := b) d k
      push_cast
      omega

/-- A round begins beyond an edge only by single steps across it. -/
theorem furthest_le (hk : b.active d k) :
    2 * b.furthest d k ≤ 2 * b.width + d + k ∧
      2 * (b.furthest d k - k) ≤ 2 * b.height + d - k := by
  induction d generalizing k with
  | zero =>
      simp only [active_iff] at hk
      simp only [furthest]
      omega
  | succ d ih =>
      have hle := b.advance_le (b.entry (b.furthest d) (d + 1) k)
        (b.entry (b.furthest d) (d + 1) k - k)
      rw [← furthest_succ] at hle
      rw [active_iff] at hk
      rcases entry_eq_or (b.furthest d) (b.active_iff.2 hk) with ⟨hprev, heq⟩ | ⟨hprev, heq⟩
      · have := ih hprev
        push_cast at hk ⊢
        omega
      · have := ih hprev
        push_cast at hk ⊢
        omega

/-- A frontier point on the board costs at most as many single steps as there were rounds. -/
theorem cost_furthest_le (hk : b.active d k) {x y : Nat} (hx : b.furthest d k = x)
    (hy : b.furthest d k - k = y) (hw : x ≤ b.width) (hh : y ≤ b.height) : b.cost x y ≤ d := by
  induction d generalizing k x y with
  | zero =>
      simp only [active_iff] at hk
      simp only [furthest] at hx hy
      have hx0 : x = 0 := by omega
      have hy0 : y = 0 := by omega
      simp [hx0, hy0]
  | succ d ih =>
      have hle := entry_le_furthest (b := b) d k
      have hge := entry_ge (fun _ => furthest_ge) hk
      rw [active_iff] at hk
      obtain ⟨x₀, hx₀⟩ := Int.eq_ofNat_of_zero_le
        (show 0 ≤ b.entry (b.furthest d) (d + 1) k by push_cast at hk; omega)
      obtain ⟨y₀, hy₀⟩ := Int.eq_ofNat_of_zero_le
        (show 0 ≤ b.entry (b.furthest d) (d + 1) k - k by push_cast at hk; omega)
      -- the diagonal is followed at no cost, so it remains to count the step that enters it
      have hcost : b.cost x y = b.cost x₀ y₀ := by
        obtain ⟨t, rfl⟩ : ∃ t, x = x₀ + t := Nat.exists_eq_add_of_le (by omega)
        obtain rfl : y = y₀ + t := by omega
        refine b.cost_advance x₀ y₀ t ?_
        rw [furthest_succ, hx₀] at hx
        rw [hx₀] at hy₀
        rw [← hy₀, hx]
        push_cast
        exact le_rfl
      rw [hcost]
      rcases entry_eq_or (b.furthest d) (b.active_iff.2 hk) with ⟨hprev, heq⟩ | ⟨hprev, heq⟩
      · have hge' := furthest_ge hprev
        rw [active_iff] at hprev
        obtain ⟨y₁, rfl⟩ : ∃ y₁, y₀ = y₁ + 1 := Nat.exists_eq_add_one_of_ne_zero (by omega)
        have hpred := ih (b.active_iff.2 hprev) (x := x₀) (y := y₁) (by omega) (by omega) (by omega)
          (by omega)
        have := cost_succ_right_le (b := b) (x := x₀) (y := y₁)
        omega
      · have hge' := furthest_ge hprev
        rw [active_iff] at hprev
        obtain ⟨x₁, rfl⟩ : ∃ x₁, x₀ = x₁ + 1 := Nat.exists_eq_add_one_of_ne_zero (by omega)
        have hpred := ih (b.active_iff.2 hprev) (x := x₁) (y := y₀) (by omega) (by omega) (by omega)
          (by omega)
        have := cost_succ_left_le (b := b) (x := x₁) (y := y₀)
        omega

theorem natAbs_le_cost (x y : Nat) : (x : Int) - y ≤ b.cost x y ∧ (y : Int) - x ≤ b.cost x y := by
  have hcost := b.cost_add_lcs x y
  have hmin := lcs_le_min b.likely x y
  omega

/-- A path that ends with a single step comes from a neighbouring diagonal, where the frontier was ahead
of it, or the frontier is at an edge of the board already. -/
theorem le_entry_of_not_likely {before : Int → Int}
    (hge : ∀ j, b.active d j → d + j ≤ 2 * before j)
    (hahead : ∀ (j : Int) (x y : Nat), b.active d j → x ≤ b.width → y ≤ b.height →
      (x : Int) - y = j → b.cost x y ≤ d → x ≤ before j)
    (hk : b.active (d + 1) k) {x y : Nat} (hw : x + 1 ≤ b.width) (hh : y + 1 ≤ b.height)
    (hxy : (x : Int) - y = k) (hlikely : b.likely x y = false)
    (hcost : b.cost (x + 1) (y + 1) ≤ d + 1) : x + 1 ≤ b.entry before (d + 1) k := by
  have hentry := entry_ge hge hk
  have hactive := b.active_iff.1 hk
  push_cast at hactive
  rcases cost_lt_of_not_likely hlikely with hlt | hlt
  · by_cases htrim : (d : Int) + 1 < k + 2 * b.height
    · have hdiag := natAbs_le_cost (b := b) x (y + 1)
      push_cast at hdiag
      have hbelow : b.active d (k - 1) := by
        rw [active_iff]
        omega
      have hprev := hahead (k - 1) x (y + 1) hbelow (by omega) hh (by push_cast; omega) (by omega)
      have := le_entry_below before hk hbelow htrim
      omega
    · omega
  · by_cases htrim : k + d + 1 < 2 * b.width
    · have hdiag := natAbs_le_cost (b := b) (x + 1) y
      push_cast at hdiag
      have habove : b.active d (k + 1) := by
        rw [active_iff]
        omega
      have hprev := hahead (k + 1) (x + 1) y habove hw (by omega) (by push_cast; omega) (by omega)
      have := le_entry_above before hk habove htrim
      push_cast at hprev
      omega
    · omega

/-- A matching pair does not hold the frontier up. -/
theorem succ_le_furthest_of_likely {x y : Nat} (hw : x + 1 ≤ b.width) (hh : y + 1 ≤ b.height)
    (hxy : (x : Int) - y = k) (hlikely : b.likely x y = true) (h : x ≤ b.furthest (d + 1) k) :
    x + 1 ≤ b.furthest (d + 1) k := by
  rcases h.eq_or_lt with heq | hlt
  · have hstop := (b.advance_spec (b.entry (b.furthest d) (d + 1) k)
      (b.entry (b.furthest d) (d + 1) k - k)).2.2
    have hy : b.entry (b.furthest d) (d + 1) k - k + (x - b.entry (b.furthest d) (d + 1) k) = y := by
      omega
    rw [← furthest_succ, ← heq, hy, pair_natCast] at hstop
    exact absurd ⟨by omega, by omega, hlikely⟩ hstop
  · omega

/-- No point of the board that costs at most as many single steps as there were rounds is ahead of the
frontier. -/
theorem le_furthest (hstart : b.likely 0 0 = false) (hk : b.active d k) {x y : Nat}
    (hw : x ≤ b.width) (hh : y ≤ b.height) (hxy : (x : Int) - y = k) (hcost : b.cost x y ≤ d) :
    x ≤ b.furthest d k := by
  induction d generalizing k x y with
  | zero =>
      simp only [active_iff] at hk
      obtain rfl : x = y := by omega
      induction x with
      | zero => simp [furthest]
      | succ x ih =>
          cases hlikely : b.likely x x with
          | true =>
              rw [cost_succ_succ_of_likely hlikely] at hcost
              have := ih (by omega) (by omega) (by omega) hcost
              obtain rfl : x = 0 := by simpa [furthest] using this
              simp [hstart] at hlikely
          | false =>
              have := cost_lt_of_not_likely hlikely
              omega
  | succ d ih =>
      have hge := furthest_ge hk
      have hactive := b.active_iff.1 hk
      push_cast at hge hactive
      induction x generalizing y with
      | zero => omega
      | succ x ihx =>
          cases y with
          | zero =>
              push_cast at hxy ⊢
              omega
          | succ y =>
              push_cast at hxy
              cases hlikely : b.likely x y with
              | true =>
                  rw [cost_succ_succ_of_likely hlikely] at hcost
                  have hx := ihx (by omega) (by omega) (by omega) hcost
                  have := succ_le_furthest_of_likely hw hh (by omega) hlikely hx
                  exact_mod_cast this
              | false =>
                  have hentry := le_entry_of_not_likely (fun _ => furthest_ge)
                    (fun j x y hj hw hh hxy hcost => ih hj hw hh hxy hcost) hk hw hh (by omega)
                    hlikely hcost
                  have := hentry.trans (entry_le_furthest d k)
                  exact_mod_cast this

/-! ## Beyond the edges -/

/-- Two diagonals below a point beyond the right edge the frontier has come to that edge at least. -/
theorem width_le_furthest_sub_two (hk : b.active d k) (hk' : b.active d (k - 2))
    (h : b.width < b.furthest d k) : b.width ≤ b.furthest d (k - 2) := by
  induction d generalizing k with
  | zero =>
      simp only [furthest] at h
      omega
  | succ d ih =>
      have hadv := b.advance_le (b.entry (b.furthest d) (d + 1) k)
        (b.entry (b.furthest d) (d + 1) k - k)
      rw [← furthest_succ] at hadv
      have hle := entry_le_furthest (b := b) d (k - 2)
      have hactive := b.active_iff.1 hk
      have hactive' := b.active_iff.1 hk'
      push_cast at hactive hactive'
      have hprev : b.active d (k - 2 + 1) := by
        rw [active_iff]
        omega
      have hdown := le_entry_above (b.furthest d) hk' hprev (by omega)
      have hdiag : k - 2 + 1 = k - 1 := by ring
      have hdiag' : k + 1 - 2 = k - 1 := by ring
      rw [hdiag] at hprev hdown
      rcases entry_eq_or (b.furthest d) hk with ⟨habove, heq⟩ | ⟨hbelow, heq⟩
      · have := ih habove (by rwa [hdiag']) (by omega)
        rw [hdiag'] at this
        omega
      · omega

/-- Two diagonals above a point beyond the lower edge the frontier has come to that edge at least. -/
theorem height_le_furthest_add_two (hk : b.active d k) (hk' : b.active d (k + 2))
    (h : b.height < b.furthest d k - k) : b.height ≤ b.furthest d (k + 2) - (k + 2) := by
  induction d generalizing k with
  | zero =>
      simp only [active_iff, furthest] at hk h
      omega
  | succ d ih =>
      have hadv := b.advance_le (b.entry (b.furthest d) (d + 1) k)
        (b.entry (b.furthest d) (d + 1) k - k)
      rw [← furthest_succ] at hadv
      have hle := entry_le_furthest (b := b) d (k + 2)
      have hactive := b.active_iff.1 hk
      have hactive' := b.active_iff.1 hk'
      push_cast at hactive hactive'
      have hprev : b.active d (k + 2 - 1) := by
        rw [active_iff]
        omega
      have hright := le_entry_below (b.furthest d) hk' hprev (by omega)
      have hdiag : k + 2 - 1 = k + 1 := by ring
      have hdiag' : k - 1 + 2 = k + 1 := by ring
      rw [hdiag] at hprev hright
      rcases entry_eq_or (b.furthest d) hk with ⟨habove, heq⟩ | ⟨hbelow, heq⟩
      · omega
      · have := ih hbelow (by rwa [hdiag']) (by omega)
        rw [hdiag'] at this
        omega

/-- A point beyond the right edge has a neighbour on the diagonal below that was at the edge one round
before. -/
theorem furthest_pred_of_width_lt (hk : b.active (d + 1) k) (h : b.width < b.furthest (d + 1) k) :
    b.active d (k - 1) ∧ b.width ≤ b.furthest d (k - 1) := by
  have hadv := b.advance_le (b.entry (b.furthest d) (d + 1) k)
    (b.entry (b.furthest d) (d + 1) k - k)
  rw [← furthest_succ] at hadv
  have hle := furthest_le hk
  have hactive := b.active_iff.1 hk
  push_cast at hle hactive
  have hprev : b.active d (k - 1) := by
    rw [active_iff]
    omega
  refine ⟨hprev, ?_⟩
  rcases entry_eq_or (b.furthest d) hk with ⟨habove, heq⟩ | ⟨hbelow, heq⟩
  · have hdiag : k + 1 - 2 = k - 1 := by ring
    have := width_le_furthest_sub_two habove (by rwa [hdiag]) (by omega)
    rwa [hdiag] at this
  · omega

/-- A point beyond the lower edge has a neighbour on the diagonal above that was at the edge one round
before. -/
theorem furthest_pred_of_height_lt (hk : b.active (d + 1) k)
    (h : b.height < b.furthest (d + 1) k - k) :
    b.active d (k + 1) ∧ b.height ≤ b.furthest d (k + 1) - (k + 1) := by
  have hadv := b.advance_le (b.entry (b.furthest d) (d + 1) k)
    (b.entry (b.furthest d) (d + 1) k - k)
  rw [← furthest_succ] at hadv
  have hle := furthest_le hk
  have hactive := b.active_iff.1 hk
  push_cast at hle hactive
  have hprev : b.active d (k + 1) := by
    rw [active_iff]
    omega
  refine ⟨hprev, ?_⟩
  rcases entry_eq_or (b.furthest d) hk with ⟨habove, heq⟩ | ⟨hbelow, heq⟩
  · omega
  · have hdiag : k - 1 + 2 = k + 1 := by ring
    have := height_le_furthest_add_two hbelow (by rwa [hdiag]) (by omega)
    rwa [hdiag] at this

end Board

end TokenDiff
