import TokenDiff.Proofs.Edit.Furthest

/-!
# Where the two searches meet

The backward search is the forward search of the board turned around, so its frontier after `q` rounds is
`b.turn.furthest q`. Its diagonals are counted from the far corner, and a point of diagonal `k` lies on
diagonal `b.delta - k` of the turned board. The two frontiers have met on that diagonal once their columns
together make up the width of the board.

As long as they have not met, a frontier point beyond an edge is one round behind a point at that edge
which the other search would have met, so the points at which they do meet are on the board
(`Searching.inside`). A cheapest path has a point for every number of single steps, which makes the
searches meet no later than its cost allows (`exists_meeting`). Hence the point where they meet first lies
on a cheapest path (`Searching.cost_add_cost`).
-/

namespace TokenDiff

namespace Board

variable {b b' : Board} {p q d : Nat} {k : Int}

/-! ## Paths through a point -/

theorem cost_le_add {x y : Nat} (hx : x ≤ b.width) (hy : y ≤ b.height) :
    b.cost b.width b.height ≤ b.cost x y + b.turn.cost (b.width - x) (b.height - y) := by
  have hadd := Rect.lcs_add_le b.likely ⟨0, 0, b.width, b.height⟩ ⟨Nat.zero_le x, hx⟩
    ⟨Nat.zero_le y, hy⟩
  simp only [rect_lcs_of_origin] at hadd
  have hturn : lcs b.turn.likely (b.width - x) (b.height - y) =
      Rect.lcs b.likely ⟨x, y, b.width, b.height⟩ := Rect.lcs_turn hx hy
  have htotal := b.cost_add_lcs b.width b.height
  have hbefore := b.cost_add_lcs x y
  have hafter := b.turn.cost_add_lcs (b.width - x) (b.height - y)
  omega

/-- A cheapest path has a point for every number of single steps. -/
theorem exists_point_of_cost {x y : Nat} (hx : x ≤ b.width) (hy : y ≤ b.height)
    (hp : p ≤ b.cost x y)
    (hpath : b.cost x y + b.turn.cost (b.width - x) (b.height - y) ≤ b.cost b.width b.height) :
    ∃ x' y', x' ≤ b.width ∧ y' ≤ b.height ∧ b.cost x' y' = p ∧
      b.turn.cost (b.width - x') (b.height - y') + p = b.cost b.width b.height := by
  induction hn : x + y using Nat.strong_induction_on generalizing x y with
  | _ n ih =>
      rcases hp.eq_or_lt with heq | hlt
      · have hle := cost_le_add hx hy
        exact ⟨x, y, hx, hy, heq.symm, by omega⟩
      · -- the point before the last step of the path is on the path, and still costs `p` steps
        have hleft (x₀ : Nat) (hx₀ : x = x₀ + 1) (hless : b.cost x₀ y < b.cost x y) :
            b.cost x₀ y + b.turn.cost (b.width - x₀) (b.height - y) ≤
              b.cost b.width b.height ∧ p ≤ b.cost x₀ y := by
          have hstep := cost_succ_left_le (b := b.turn) (x := b.width - x) (y := b.height - y)
          rw [show b.width - x + 1 = b.width - x₀ by omega] at hstep
          have hback := cost_succ_left_le (b := b) (x := x₀) (y := y)
          subst hx₀
          omega
        have hbelow (y₀ : Nat) (hy₀ : y = y₀ + 1) (hless : b.cost x y₀ < b.cost x y) :
            b.cost x y₀ + b.turn.cost (b.width - x) (b.height - y₀) ≤
              b.cost b.width b.height ∧ p ≤ b.cost x y₀ := by
          have hstep := cost_succ_right_le (b := b.turn) (x := b.width - x) (y := b.height - y)
          rw [show b.height - y + 1 = b.height - y₀ by omega] at hstep
          have hback := cost_succ_right_le (b := b) (x := x) (y := y₀)
          subst hy₀
          omega
        match x, y with
        | 0, 0 => simp at hlt
        | x₀ + 1, 0 =>
            have hless : b.cost x₀ 0 < b.cost (x₀ + 1) 0 := by simp [cost]
            obtain ⟨hpath, hp⟩ := hleft x₀ rfl hless
            exact ih _ (by omega) (by omega) hy hp hpath rfl
        | 0, y₀ + 1 =>
            have hless : b.cost 0 y₀ < b.cost 0 (y₀ + 1) := by simp [cost]
            obtain ⟨hpath, hp⟩ := hbelow y₀ rfl hless
            exact ih _ (by omega) hx (by omega) hp hpath rfl
        | x₀ + 1, y₀ + 1 =>
            cases hlikely : b.likely x₀ y₀ with
            | true =>
                have hpair : b.turn.likely (b.width - (x₀ + 1)) (b.height - (y₀ + 1)) = true := by
                  rw [← hlikely]
                  simp only [turn]
                  congr 1 <;> omega
                have hsame := cost_succ_succ_of_likely hlikely
                have hsame' := cost_succ_succ_of_likely hpair
                rw [show b.width - (x₀ + 1) + 1 = b.width - x₀ by omega,
                  show b.height - (y₀ + 1) + 1 = b.height - y₀ by omega] at hsame'
                exact ih _ (by omega) (x := x₀) (y := y₀) (by omega) (by omega) (by omega)
                  (by omega) rfl
            | false =>
                rcases cost_lt_of_not_likely hlikely with hless | hless
                · obtain ⟨hpath, hp⟩ := hleft x₀ rfl hless
                  exact ih _ (by omega) (by omega) hy hp hpath rfl
                · obtain ⟨hpath, hp⟩ := hbelow y₀ rfl hless
                  exact ih _ (by omega) hx (by omega) hp hpath rfl

theorem active_cost {x y : Nat} (hx : x ≤ b.width) (hy : y ≤ b.height) :
    b.active (b.cost x y) (x - y) := by
  have hcost := b.cost_add_lcs x y
  have hmin := lcs_le_min b.likely x y
  rw [active_iff]
  omega

/-! ## Meeting -/

/-- After `p` rounds on the one board and `q` rounds on the other the frontiers have not met. -/
def Apart (b b' : Board) (p q : Nat) : Prop :=
  ∀ k, b.active p k → b'.active q (b.delta - k) →
    b.furthest p k + b'.furthest q (b.delta - k) < b.width

/-- The searches from both corners have not met before round `d`. -/
def Searching (b : Board) (d : Nat) : Prop :=
  ∀ p q, p < d → q ≤ p → p ≤ q + 1 → b.Apart b.turn p q

theorem Apart.symm (h : b.Apart b' p q) (hw : b'.width = b.width) (hh : b'.height = b.height) :
    b'.Apart b q p := by
  intro k hk hk'
  have hdelta : b'.delta = b.delta := by
    simp only [delta, hw, hh]
  rw [hdelta] at hk' ⊢
  have := h (b.delta - k) hk' (by rwa [sub_sub_cancel])
  rw [sub_sub_cancel] at this
  omega

/-- Points that meet on a diagonal are within the right edge. One round before, the neighbour of a point
beyond the edge would have met the other search, on one side of the diagonal or on the other. -/
theorem Apart.furthest_le_width (h : b.Apart b' p q) (hw : b'.width = b.width)
    (hh : b'.height = b.height) (hk : b.active (p + 1) k)
    (hj : b'.active (q + 1) (b.delta - k)) : b.furthest (p + 1) k ≤ b.width := by
  by_contra hlt
  rw [not_le] at hlt
  rw [active_iff, hw, hh] at hj
  obtain ⟨hprev, hedge⟩ := furthest_pred_of_width_lt hk hlt
  push_cast at hj
  rcases lt_or_ge (b.delta - k) (q + 1) with hside | hside
  · have hprev' : b'.active q (b.delta - (k - 1)) := by
      rw [active_iff, hw, hh]
      omega
    have hge := furthest_ge hprev'
    rw [active_iff] at hprev'
    have := h _ hprev (b'.active_iff.2 hprev')
    omega
  · have hdelta : b.delta = b.width - b.height := rfl
    obtain ⟨hprev, hedge⟩ := furthest_pred_of_height_lt hk (by omega)
    have hprev' : b'.active q (b.delta - (k + 1)) := by
      rw [active_iff, hw, hh]
      omega
    have hge := furthest_ge hprev'
    have := h _ hprev hprev'
    omega

/-- Points that meet on a diagonal are within the lower edge. -/
theorem Apart.furthest_le_height (h : b.Apart b' p q) (hw : b'.width = b.width)
    (hh : b'.height = b.height) (hk : b.active (p + 1) k)
    (hj : b'.active (q + 1) (b.delta - k)) : b.furthest (p + 1) k - k ≤ b.height := by
  have hwidth := h.furthest_le_width hw hh hk hj
  by_contra hlt
  rw [not_le] at hlt
  have hdelta : b.delta = b.width - b.height := rfl
  rw [active_iff, hw, hh] at hj
  obtain ⟨hprev, hedge⟩ := furthest_pred_of_height_lt hk hlt
  push_cast at hj
  have hprev' : b'.active q (b.delta - (k + 1)) := by
    rw [active_iff, hw, hh]
    omega
  have hge := furthest_ge hprev'
  rw [active_iff] at hprev'
  have := h _ hprev (b'.active_iff.2 hprev')
  omega

/-- The points at which the searches meet for the first time are on the board, those of the forward
search and those of the backward search. -/
theorem Searching.inside (h : b.Searching p) (hp : 0 < p) (hqp : q ≤ p) (hpq : p ≤ q + 1)
    (hk : b.active p k) (hj : b.turn.active q (b.delta - k)) :
    (b.furthest p k ≤ b.width ∧ b.furthest p k - k ≤ b.height) ∧
      b.turn.furthest q (b.delta - k) ≤ b.width ∧
      b.turn.furthest q (b.delta - k) - (b.delta - k) ≤ b.height := by
  have hdelta : b.delta = b.width - b.height := rfl
  obtain ⟨p, rfl⟩ : ∃ p', p = p' + 1 := Nat.exists_eq_add_one_of_ne_zero hp.ne'
  cases q with
  | zero =>
      obtain rfl : p = 0 := by omega
      rw [Nat.zero_add] at hk ⊢
      have hle := furthest_le hk
      have hfirst : b.turn.furthest 0 (b.delta - k) = 0 := rfl
      rw [active_iff] at hk hj
      simp only [turn_width, turn_height] at hj
      push_cast at hle hk hj
      omega
  | succ q =>
      have hapart := h p q (Nat.lt_succ_self p) (by omega) (by omega)
      have hsymm : b.turn.Apart b q p := hapart.symm rfl rfl
      have hk' : b.active (p + 1) (b.turn.delta - (b.delta - k)) := by
        rwa [turn_delta, sub_sub_cancel]
      exact ⟨⟨hapart.furthest_le_width rfl rfl hk hj, hapart.furthest_le_height rfl rfl hk hj⟩,
        hsymm.furthest_le_width rfl rfl hj hk', hsymm.furthest_le_height rfl rfl hj hk'⟩

/-- When both searches together have made as many rounds as a cheapest path has single steps, they have
met. -/
theorem exists_meeting (hstart : b.likely 0 0 = false) (hend : b.turn.likely 0 0 = false)
    (hpq : p + q = b.cost b.width b.height) :
    ¬ b.Apart b.turn p q := by
  have hcorner : b.turn.cost (b.width - b.width) (b.height - b.height) = 0 := by simp
  obtain ⟨x, y, hx, hy, hp, hq⟩ := exists_point_of_cost (b := b) (p := p) (x := b.width)
    (y := b.height) le_rfl le_rfl (by omega) (by omega)
  intro hapart
  have hk := active_cost hx hy
  have hj := active_cost (b := b.turn) (x := b.width - x) (y := b.height - y) (Nat.sub_le _ _)
    (Nat.sub_le _ _)
  rw [hp] at hk
  rw [show b.turn.cost (b.width - x) (b.height - y) = q by omega,
    show ((b.width - x : Nat) : Int) - (b.height - y : Nat) = b.delta - (x - y) by
      simp only [delta]
      omega] at hj
  have hfirst := le_furthest hstart hk hx hy rfl hp.le
  have hlast := le_furthest hend hj (x := b.width - x) (y := b.height - y) (Nat.sub_le _ _)
    (Nat.sub_le _ _) (by simp only [delta]; omega) (by omega)
  have := hapart _ hk hj
  omega

/-- A search that has gone on up to round `d` shows that every path is that expensive. -/
theorem Searching.lt_cost (h : b.Searching d) (hstart : b.likely 0 0 = false)
    (hend : b.turn.likely 0 0 = false) : 2 * d ≤ b.cost b.width b.height + 1 := by
  by_contra hlt
  refine exists_meeting hstart hend (p := (b.cost b.width b.height + 1) / 2)
    (q := b.cost b.width b.height / 2) (by omega) ?_
  exact h _ _ (by omega) (by omega) (by omega)

/-- The points at which the searches meet for the first time lie on cheapest paths: the point of the
forward search with what is left after it, and the point of the backward search with what is left before
it. -/
theorem Searching.cost_eq (h : b.Searching p) (hstart : b.likely 0 0 = false)
    (hend : b.turn.likely 0 0 = false) (hp : 0 < p) (hqp : q ≤ p) (hpq : p ≤ q + 1)
    (hk : b.active p k) (hj : b.turn.active q (b.delta - k))
    (hmeet : b.width ≤ b.furthest p k + b.turn.furthest q (b.delta - k)) {u v x y : Nat}
    (hu : b.furthest p k = u) (hv : b.furthest p k - k = v)
    (hx : b.turn.furthest q (b.delta - k) = (b.width : Int) - x)
    (hy : b.turn.furthest q (b.delta - k) - (b.delta - k) = (b.height : Int) - y) :
    (b.cost u v + b.turn.cost (b.width - u) (b.height - v) = b.cost b.width b.height ∧
      b.cost u v = p) ∧
      b.cost x y + b.turn.cost (b.width - x) (b.height - y) = b.cost b.width b.height ∧
        b.turn.cost (b.width - x) (b.height - y) = q := by
  have hdelta : b.delta = b.width - b.height := rfl
  obtain ⟨⟨hfirst, hfirst'⟩, hlast, hlast'⟩ := h.inside hp hqp hpq hk hj
  have hge := furthest_ge hj
  have hjactive := b.turn.active_iff.1 hj
  simp only [turn_width, turn_height] at hjactive
  have hbefore := cost_furthest_le hk hu hv (by omega) (by omega)
  have hafter := cost_furthest_le hj (x := b.width - x) (y := b.height - y) (by omega) (by omega)
    (Nat.sub_le _ _) (Nat.sub_le _ _)
  -- both points are on one diagonal, the backward one no further from the first corner
  obtain ⟨t, ht⟩ : ∃ t, u = x + t := Nat.exists_eq_add_of_le (by omega)
  have ht' : v = y + t := by omega
  have hcost := cost_le_cost_add (b := b.turn) (x := b.width - u) (y := b.height - v) t
  rw [show b.width - u + t = b.width - x by omega, show b.height - v + t = b.height - y by omega]
    at hcost
  have hcost' := cost_le_cost_add (b := b) (x := x) (y := y) t
  rw [← ht, ← ht'] at hcost'
  have hpath := cost_le_add (b := b) (x := u) (y := v) (by omega) (by omega)
  have hpath' := cost_le_add (b := b) (x := x) (y := y) (by omega) (by omega)
  have hlt := h.lt_cost hstart hend
  -- the parity of the diagonals is that of the rounds, and of the cost
  have htotal := b.cost_add_lcs b.width b.height
  rw [active_iff] at hk
  omega

end Board

end TokenDiff
