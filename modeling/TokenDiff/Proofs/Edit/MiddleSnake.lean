import TokenDiff.Proofs.Edit.Script

/-!
# The middle snake

With as many rounds as half the tokens of a board, the two searches meet before the rounds are used up. The snake
that they meet at depends on the board alone (`middle_snake`): neither on how many more rounds were allowed for,
nor on what the frontiers held before.

The round in which the searches meet and the diagonal on which they do are told by the furthest points
(`Board.Ends`), which are a recursion without frontiers, and there is only one such end of a search
(`Board.Ends.unique`). So it is enough that every search comes to such an end (`Board.exists_ends`).
-/

namespace TokenDiff

namespace Board

variable {b : Board} {bound d d' : Nat} {k : Int} {run run' : Run}

/-! ## Searches without a way out -/

theorem sub_succ_lt (h : d ≤ bound) : bound + 1 - (d + 1) < bound + 1 - d := by omega

theorem zero_within (bound : Nat) : -(bound : Int) ≤ 0 ∧ 0 ≤ (bound : Int) := by omega

/-- The run that ends the rounds from `d` on, none if they are used up before the searches have met. -/
def foundFrom? (b : Board) (d : Nat) (hd : 0 < d) (f : Frontiers bound) : Option Run :=
  if h : d ≤ bound then
    match b.sweep f.backward d ⟨hd, h⟩ (lowest d b.height) (Int.le_refl _) f.forward with
    | .met run _ => some run
    | .moved forward =>
      match b.sweepBack forward d ⟨hd, h⟩ (-highest d b.width) (Int.le_refl _) f.backward with
      | .met run _ => some run
      | .moved backward => b.foundFrom? (d + 1) d.succ_pos ⟨forward, backward⟩
  else none
termination_by bound + 1 - d
decreasing_by exact sub_succ_lt h

/-- The run that the searches find, none if the rounds are used up before. -/
def found? (b : Board) (f : Frontiers bound) : Option Run :=
  let u := b.advance 0 0
  if 0 < u then some ⟨0, u, 0, u⟩
  else
    let x := b.retreat b.width b.height
    if x < b.width then some ⟨x, b.width, x - b.delta, b.height⟩
    else
      b.foundFrom? 1 Nat.one_pos
        ⟨f.forward.set 0 0 (zero_within bound), f.backward.set 0 b.width (zero_within bound)⟩

theorem rounds_eq_getD (b : Board) (d : Nat) (hd : 0 < d) (f : Frontiers bound) :
    (b.rounds d hd f).1 = (b.foundFrom? d hd f).getD b.centre := by
  fun_induction rounds b d hd f with
  | case1 d hd f hle run forward hmet => rw [foundFrom?, dif_pos hle, hmet, Option.getD_some]
  | case2 d hd f hle forward hmoved run backward hmet =>
      rw [foundFrom?, dif_pos hle, hmoved]
      simp only [hmet, Option.getD_some]
  | case3 d hd f hle forward hmoved backward hmoved' ih =>
      rw [foundFrom?, dif_pos hle, hmoved]
      simp only [hmoved', ih]
  | case4 d hd f hgt => rw [foundFrom?, dif_neg hgt, Option.getD_none]

/-- A board is divided at what the searches find, and through its middle if they find nothing. -/
theorem middle_eq_getD (b : Board) (f : Frontiers bound) :
    (b.middle f).1 = (b.found? f).getD b.centre := by
  unfold middle found?
  simp only
  split_ifs with hstart hend
  · rw [Option.getD_some]
  · rw [Option.getD_some]
  · exact b.rounds_eq_getD 1 one_pos _

/-! ## How a search ends -/

/-- The forward search, having come to diagonal `k` in round `d + 1`, has met the backward search. -/
def MeetsOn (b : Board) (d : Nat) (k : Int) : Prop :=
  b.active d (b.delta - k) ∧ b.width ≤ b.furthest (d + 1) k + b.turn.furthest d (b.delta - k)

/-- The backward search, having come to diagonal `k` of the board turned around in round `d + 1`, has met the
forward search. -/
def MeetsBackOn (b : Board) (d : Nat) (k : Int) : Prop :=
  b.active (d + 1) (b.delta - k) ∧
    b.width ≤ b.furthest (d + 1) (b.delta - k) + b.turn.furthest (d + 1) k

/-- Round `d + 1` ends with the run: on the lowest diagonal on which the forward search has met the backward
search, or on the first one of the backward search, if the forward search has met it on none. -/
inductive Ends (b : Board) (d : Nat) : Run → Prop
  | forward {k : Int} (hk : b.active (d + 1) k) (hmeet : b.MeetsOn d k)
    (hfirst : ∀ j < k, b.active (d + 1) j → ¬ b.MeetsOn d j) : Ends b d (b.forwardRun d k)
  | backward {k : Int} (hnone : ∀ j, b.active (d + 1) j → ¬ b.MeetsOn d j) (hk : b.active (d + 1) k)
    (hmeet : b.MeetsBackOn d k) (hfirst : ∀ j, k < j → b.active (d + 1) j → ¬ b.MeetsBackOn d j) :
    Ends b d (b.backwardRun d k)

/-- A search that ends with a round does not go on. -/
theorem Ends.not_searching (h : b.Ends d run) : ¬ b.Searching (d + 2) := by
  intro hsearching
  cases h with
  | @forward k hk hmeet _ =>
      have hapart := hsearching (d + 1) d (Nat.lt_succ_self _) (Nat.le_succ d) le_rfl k hk hmeet.1
      exact absurd hmeet.2 (not_le.2 hapart)
  | @backward k _ hk hmeet _ =>
      have hback : b.delta - (b.delta - k) = k := sub_sub_cancel _ _
      have hapart := hsearching (d + 1) (d + 1) (Nat.lt_succ_self _) le_rfl (Nat.le_succ _) (b.delta - k) hmeet.1
        (by rwa [hback])
      rw [hback] at hapart
      exact absurd hmeet.2 (not_le.2 hapart)

theorem Searching.of_le (h : b.Searching d) (hle : d' ≤ d) : b.Searching d' :=
  fun p q hp => h p q (Nat.lt_of_lt_of_le hp hle)

/-- The searches of a board end in one way. -/
theorem Ends.unique (h : b.Ends d run) (hsearching : b.Searching (d + 1)) (h' : b.Ends d' run')
    (hsearching' : b.Searching (d' + 1)) : run = run' := by
  have hround : d = d' := by
    rcases Nat.lt_trichotomy d d' with hlt | heq | hlt
    · exact absurd (hsearching'.of_le (by omega)) h.not_searching
    · exact heq
    · exact absurd (hsearching.of_le (by omega)) h'.not_searching
  subst hround
  cases h with
  | @forward k hk hmeet hfirst =>
      cases h' with
      | @forward k' hk' hmeet' hfirst' =>
          rcases lt_trichotomy k k' with hlt | rfl | hlt
          · exact absurd hmeet (hfirst' k hlt hk)
          · rfl
          · exact absurd hmeet' (hfirst k' hlt hk')
      | backward hnone _ _ _ => exact absurd hmeet (hnone k hk)
  | @backward k hnone hk hmeet hfirst =>
      cases h' with
      | @forward k' hk' hmeet' _ => exact absurd hmeet' (hnone k' hk')
      | @backward k' _ hk' hmeet' hfirst' =>
          rcases lt_trichotomy k k' with hlt | rfl | hlt
          · exact absurd hmeet' (hfirst k' hlt hk')
          · rfl
          · exact absurd hmeet (hfirst' k hlt hk)

/-! ## Every search ends -/

theorem meets_iff {backward : Frontier bound} (hbehind : b.Behind backward d) (hd) (hk : b.active (d + 1) k) :
    b.meets backward (d + 1) hd k (b.furthest (d + 1) k) = true ↔ b.MeetsOn d k :=
  meets_eq_true_iff hbehind hd hk _

theorem meetsBack_iff {forward : Frontier bound} (hahead : b.Ahead forward (d + 1)) (hd)
    (hk : b.active (d + 1) k) :
    b.meetsBack forward (d + 1) hd (-k) (b.width - b.turn.furthest (d + 1) k) = true ↔ b.MeetsBackOn d k := by
  have hdiag : -k + b.delta = b.delta - k := by ring
  rw [meetsBack_eq_true_iff hahead hd (by rwa [neg_neg]), hdiag]
  exact and_congr_right fun _ => sub_le_iff_le_add

/-- The rounds end before they are used up, if there are as many as half the tokens. -/
theorem foundFrom?_ends (hstart : b.likely 0 0 = false) (hend : b.turn.likely 0 0 = false)
    (hbound : b.width + b.height ≤ 2 * bound) {f : Frontiers bound} {e : Nat} (he : 0 < e) (hd : e = d + 1)
    (hahead : b.Ahead f.forward d) (hbehind : b.Behind f.backward d) (h : b.Searching e) :
    ∃ run d', b.foundFrom? e he f = some run ∧ b.Ends d' run ∧ b.Searching (d' + 1) := by
  fun_induction foundFrom? b e he f generalizing d with
  | case1 e he f hle run forward hsweep =>
      subst hd
      obtain ⟨j, hj, hmeets, hfirst, rfl⟩ := sweep_met ⟨he, hle⟩ _ (.start hahead) hsweep
      refine ⟨_, d, rfl, .forward hj ((meets_iff hbehind hle hj).1 hmeets) fun i hlt hi => ?_, h⟩
      rw [← meets_iff hbehind hle hi, hfirst i hi.1.1 hlt hi]
      exact Bool.false_ne_true
  | case2 e he f hle forward hsweep run backward hsweep' =>
      subst hd
      obtain ⟨hahead', hnone⟩ := sweep_moved ⟨he, hle⟩ _ (.start hahead) hsweep
      obtain ⟨j, hj, hmeets, hfirst, rfl⟩ := sweepBack_met ⟨he, hle⟩ _ (.start hbehind) hsweep'
      refine ⟨_, d, rfl, .backward (fun i hi => ?_) hj ((meetsBack_iff hahead' hle hj).1 hmeets)
        fun i hlt hi => ?_, h⟩
      · rw [← meets_iff hbehind hle hi, hnone i hi.1.1 hi]
        exact Bool.false_ne_true
      · rw [← meetsBack_iff hahead' hle hi, hfirst i (neg_le_neg hi.1.2) hlt hi]
        exact Bool.false_ne_true
  | case3 e he f hle forward hsweep backward hsweep' ih =>
      subst hd
      obtain ⟨hahead', hnone⟩ := sweep_moved ⟨he, hle⟩ _ (.start hahead) hsweep
      obtain ⟨hbehind', hnone'⟩ := sweepBack_moved ⟨he, hle⟩ _ (.start hbehind) hsweep'
      refine ih rfl hahead' hbehind' (h.succ (fun i hi hj hmeet => ?_) fun i hi hj hmeet => ?_)
      · have htrue := (meets_iff hbehind hle hi).2 ⟨hj, hmeet⟩
        rw [hnone i hi.1.1 hi] at htrue
        cases htrue
      · have htrue := (meetsBack_iff hahead' hle hi).2 ⟨hj, hmeet⟩
        rw [hnone' i (neg_le_neg hi.1.2) hi] at htrue
        cases htrue
  | case4 e he f hgt =>
      -- without a meeting every path is longer than all tokens together
      have hlt := h.lt_cost hstart hend
      have hcost := b.cost_add_lcs b.width b.height
      omega

theorem exists_ends (hstart : b.likely 0 0 = false) (hend : b.turn.likely 0 0 = false)
    (hbound : b.width + b.height ≤ 2 * bound) (f : Frontiers bound) :
    ∃ run d, b.found? f = some run ∧ b.Ends d run ∧ b.Searching (d + 1) := by
  have hfirst : ¬ 0 < b.advance 0 0 := by simp [advance_origin_pos_iff, hstart]
  have hlast : ¬ b.retreat b.width b.height < b.width := by simp [retreat_corner_lt_iff, hend]
  simp only [found?, if_neg hfirst, if_neg hlast]
  exact foundFrom?_ends hstart hend hbound one_pos rfl (ahead_start f.forward (zero_within bound))
    (behind_start f.backward (zero_within bound)) b.searching_one

/-- What the searches find depends on the board alone. -/
theorem exists_found (b : Board) :
    ∃ run, ∀ bound, b.width + b.height ≤ 2 * bound → ∀ f : Frontiers bound, b.found? f = some run := by
  cases hstart : b.likely 0 0 with
  | true =>
      have hfirst := advance_origin_pos_iff.2 hstart
      exact ⟨⟨0, b.advance 0 0, 0, b.advance 0 0⟩, fun bound _ f => by simp only [found?, if_pos hfirst]⟩
  | false =>
      have hfirst : ¬ 0 < b.advance 0 0 := by simp [advance_origin_pos_iff, hstart]
      cases hend : b.turn.likely 0 0 with
      | true =>
          have hlast := retreat_corner_lt_iff.2 hend
          exact ⟨⟨b.retreat b.width b.height, b.width, b.retreat b.width b.height - b.delta, b.height⟩,
            fun bound _ f => by simp only [found?, if_neg hfirst, if_pos hlast]⟩
      | false =>
          obtain ⟨run, d, -, hends, hsearching⟩ :=
            exists_ends hstart hend (by omega) (Frontiers.start (b.width + b.height))
          refine ⟨run, fun bound hbound f => ?_⟩
          obtain ⟨run', d', hfound, hends', hsearching'⟩ := exists_ends hstart hend hbound f
          rw [hfound, hends.unique hsearching hends' hsearching']

end Board

/-! ## The snake of a rectangle -/

/-- The snake that a rectangle is divided at is found before the rounds are used up, if there are as many as half
its tokens. It is the same for every such number of rounds and for whatever the frontiers hold. It lies in the
rectangle, its pairs may match, and with the largest matchings before and after it there are as many pairs as in
a largest matching of the rectangle. -/
theorem middle_snake {σ : Type} (c : Comparison σ) (r : Rect) (h : r.isOpen) :
    ∃ s : Snake,
      (∀ bound, (r.endX - r.startX + (r.endY - r.startY) + 1) / 2 ≤ bound → ∀ f : Frontiers bound,
        ((c.board r h).found? f).map r.place = some s ∧ (c.divide r h f).1 = s) ∧
      ((r.startX ≤ s.x ∧ s.x ≤ s.u ∧ s.u ≤ r.endX) ∧ r.startY ≤ s.y ∧ s.y ≤ s.v ∧ s.v ≤ r.endY) ∧
      s.Matches c.likely ∧
      (r.before s).lcs c.likely + (s.u - s.x) + (r.after s).lcs c.likely = r.lcs c.likely ∧
      ∀ part : Rect, IsGreatest {k | ∃ pairs, IsMatching c.likely part pairs ∧ pairs.length = k}
        (part.lcs c.likely) := by
  obtain ⟨run, hfound⟩ := (c.board r h).exists_found
  have hwidth : (c.board r h).width = r.endX - r.startX := rfl
  have hheight : (c.board r h).height = r.endY - r.startY := rfl
  have hdivide {bound : Nat} (hbound : (r.endX - r.startX + (r.endY - r.startY) + 1) / 2 ≤ bound)
      (f : Frontiers bound) :
      ((c.board r h).found? f).map r.place = some (r.place run) ∧ (c.divide r h f).1 = r.place run := by
    have hrun := hfound bound (by omega) f
    have hs : (c.divide r h f).1 = r.place ((c.board r h).middle f).1 := rfl
    rw [hs, Board.middle_eq_getD, hrun]
    exact ⟨rfl, rfl⟩
  have henough : (r.endX - r.startX + (r.endY - r.startY) + 1) / 2 ≤
      r.endX - r.startX + (r.endY - r.startY) := by omega
  have hdivided := c.divide_divided r h (Frontiers.start (r.endX - r.startX + (r.endY - r.startY)))
  rw [(hdivide henough _).2] at hdivided
  have hxu := hdivided.matched.x_le_u
  have hdiag := hdivided.matched.diagonal
  refine ⟨r.place run, fun bound hbound f => hdivide hbound f, ⟨⟨hdivided.left.1, hxu, hdivided.right.1⟩,
    hdivided.left.2, by omega, hdivided.right.2⟩, hdivided.matched, hdivided.cheapest.resolve_right (by omega),
    fun part => part.lcs_isGreatest c.likely⟩

/-- Four rounds are half of the eight tokens of this rectangle. With one round it would be divided through its
middle. -/
theorem middle_snake_of_lists : ∃ h : Rect.isOpen ⟨1, 0, 5, 4⟩,
    (5 - 1 + (4 - 0) + 1) / 2 ≤ 4 ∧
    (∀ f : Frontiers 4, ((Comparison.ofLists id [1, 2, 3, 4, 5, 6] [7, 3, 8, 2, 5]).divide ⟨1, 0, 5, 4⟩ h f).1 =
      ⟨1, 2, 3, 4⟩) ∧
    Snake.Matches (Comparison.ofLists id [1, 2, 3, 4, 5, 6] [7, 3, 8, 2, 5]).likely ⟨1, 2, 3, 4⟩ := by
  have hopen : Rect.isOpen ⟨1, 0, 5, 4⟩ := by decide
  obtain ⟨s, hfound, -, hmatches, -⟩ :=
    middle_snake (Comparison.ofLists id [1, 2, 3, 4, 5, 6] [7, 3, 8, 2, 5]) ⟨1, 0, 5, 4⟩ hopen
  have hdivide : ((Comparison.ofLists id [1, 2, 3, 4, 5, 6] [7, 3, 8, 2, 5]).divide ⟨1, 0, 5, 4⟩ hopen
      (Frontiers.start 4)).1 = ⟨1, 2, 3, 4⟩ := by
    cbv
  obtain rfl : s = ⟨1, 2, 3, 4⟩ := (hfound 4 (by decide) _).2.symm.trans hdivide
  exact ⟨hopen, by decide, fun f => (hfound 4 (by decide) f).2, hmatches⟩

end TokenDiff
