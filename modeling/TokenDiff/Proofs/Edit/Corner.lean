import TokenDiff.Proofs.Edit.Search

/-!
# Snakes short of the corner

A snake that is slid forward as far as its tokens allow could come to the far corner of the edit graph, and
nothing would be left between it and the end. `Snake.Barred` says that it cannot: an unequal pair lies on
its way. The snakes of a search are barred unless they end at the corner (`Searched.barred`), since the
pairs that may match before the corner are found first, and as one snake.
-/

namespace TokenDiff

variable {σ : Type} {c : Comparison σ} {valid : σ → Prop} {fails : Fault → Prop}
  {same : Nat → Nat → Bool} {bound endX endY : Nat}

/-- On the diagonal of the corner `(endX, endY)` an unequal pair lies between the snake and the
corner. -/
def Snake.Barred (same : Nat → Nat → Bool) (endX endY : Nat) (s : Snake) : Prop :=
  s.u + endY = s.v + endX → ∃ k, s.u + k < endX ∧ same (s.u + k) (s.v + k) = false

namespace Snake.Barred

variable {s : Snake}

theorem of_stop (hu : s.u < endX) (h : same s.u s.v = false) : s.Barred same endX endY :=
  fun _ => ⟨0, hu, h⟩

theorem of_pair {i j : Nat} (hdiag : i + endY = j + endX) (hi : i < endX) (hu : s.u ≤ i)
    (h : same i j = false) : s.Barred same endX endY := by
  intro hcorner
  have hx : s.u + (i - s.u) = i := by omega
  have hy : s.v + (i - s.u) = j := by omega
  refine ⟨i - s.u, by omega, ?_⟩
  rwa [hx, hy]

theorem grow (h : s.Barred same endX endY) (hsame : same s.u s.v = true) :
    s.grow.Barred same endX endY := by
  intro hcorner
  simp only [Snake.grow] at hcorner ⊢
  obtain ⟨k, hk, hstop⟩ := h (by omega)
  cases k with
  | zero =>
      rw [Nat.add_zero, Nat.add_zero, hsame] at hstop
      exact absurd hstop (by simp)
  | succ k =>
      refine ⟨k, by omega, ?_⟩
      rwa [Nat.add_right_comm s.u, Nat.add_right_comm s.v]

theorem not_corner (h : s.Barred same endX endY) : ¬ (s.u = endX ∧ s.v = endY) := by
  rintro ⟨hu, hv⟩
  obtain ⟨k, hk, -⟩ := h (by omega)
  omega

end Snake.Barred

theorem Comparison.Decides.not_same (hc : c.Decides valid fails same) {i j : Nat}
    (hi : i < c.oldCount) (hj : j < c.newCount) (h : c.likely i j = false) : same i j = false := by
  apply eq_false_of_ne_true
  intro hsame
  rw [hc.likely i j hi hj hsame] at h
  exact absurd h (by simp)

namespace Searched

variable {r : Rect} {snakes : List Snake}

theorem eq_nil (h : Searched c same bound r snakes) (hr : ¬ r.isOpen) : snakes = [] := by
  cases h with
  | closed _ => rfl
  | divided h _ _ _ => exact absurd h hr

theorem eq_nil_of_start {s : Snake} (h : Searched c same bound (r.before s) snakes)
    (hx : s.x = r.startX) : snakes = [] := by
  apply h.eq_nil
  intro hopen
  have := hopen.1
  simp only [Rect.before] at this
  omega

/-- Where the last pair is equal and the first one cannot match, the last snake ends at the corner and
begins after a pair that is unequal, or at an edge of the rectangle. -/
theorem last_of_same (hc : c.Decides valid fails same) (h : Searched c same bound r snakes)
    (hr : r.isOpen) (hx : r.endX ≤ c.oldCount) (hy : r.endY ≤ c.newCount)
    (hstart : c.likely r.startX r.startY = false)
    (hend : same (r.endX - 1) (r.endY - 1) = true) :
    ∃ init t, snakes = init ++ [t] ∧ (t.u = r.endX ∧ t.v = r.endY) ∧
      (r.startX < t.x → r.startY < t.y → same (t.x - 1) (t.y - 1) = false) := by
  have hopen := hr
  simp only [Rect.isOpen] at hopen
  cases h with
  | closed h => exact absurd hr h
  | @divided _ first last h f hfirst hlast =>
      have hdiv := c.divide_divided r h f
      obtain ⟨hcorner, hlt, hstop⟩ := c.divide_of_likely_end r h f hstart
        (hc.likely _ _ (by omega) (by omega) hend)
      generalize (c.divide r h f).1 = s at hdiv hcorner hlt hstop hlast
      have hleft := hdiv.left
      have hdiag := hdiv.matched.diagonal
      have hnil : last = [] := by
        apply hlast.eq_nil
        intro hafter
        have := hafter.1
        simp only [Rect.after] at this
        omega
      have hruns := confirmed_runs same s
      obtain ⟨n, hn⟩ : ∃ n, s.u - s.x = n + 1 := ⟨s.u - s.x - 1, by omega⟩
      rw [hn] at hruns
      have hlastpair : same (s.x + n) (s.y + n) = true := by
        have hx' : s.x + n = r.endX - 1 := by omega
        have hy' : s.y + n = r.endY - 1 := by omega
        rw [hx', hy']
        exact hend
      obtain ⟨pre, t, hpre, hu, hv⟩ := hruns.last_of_same hlastpair
      have ht : t ∈ confirmed same s := by simp [hpre]
      refine ⟨first ++ pre, t, ?_, ⟨by omega, by omega⟩, fun hxt hyt => ?_⟩
      · rw [hnil, hpre, List.append_nil, List.append_assoc]
      · rcases hruns.start t ht with heq | hne
        · have hty : t.y = s.y := by
            have := hruns.diagonal t ht
            omega
          rw [heq] at hxt ⊢
          rw [hty] at hyt ⊢
          exact hc.not_same (by omega) (by omega) (hstop hxt hyt)
        · exact hne

/-- The snakes of a rectangle whose first pair cannot match do not slide to its corner. -/
theorem barred_of_not_likely (hc : c.Decides valid fails same)
    (h : Searched c same bound r snakes) (hr : r.isOpen) (hx : r.endX ≤ c.oldCount)
    (hy : r.endY ≤ c.newCount) (hstart : c.likely r.startX r.startY = false) :
    ∀ p ∈ snakes, p.u < r.endX → p.Barred same r.endX r.endY := by
  intro p hp hlt
  have hopen := hr
  simp only [Rect.isOpen] at hopen
  cases hend : same (r.endX - 1) (r.endY - 1) with
  | false => exact .of_pair (by omega) (by omega) (by omega) hend
  | true =>
      obtain ⟨init, t, rfl, ⟨hu, hv⟩, hstop⟩ := h.last_of_same hc hr hx hy hstart hend
      have hasc := h.ascends ⟨hopen.1.le, hopen.2.le⟩
      obtain ⟨hmatch, -, -⟩ := hasc.of_mem (List.mem_append_right _ (List.mem_singleton_self t))
      have hdiag := hmatch.diagonal
      have hxu := hmatch.x_le_u
      rcases List.mem_append.1 hp with hinit | hlast
      · obtain ⟨hpmatch, hfrom, -⟩ := hasc.of_mem hp
        have hbefore := hasc.of_mem_init hinit
        have hlen := h.nonempty p hp
        have hpdiag := hpmatch.diagonal
        have hne := hstop (by omega) (by omega)
        intro hcorner
        have hdiag' : t.x - 1 + r.endY = t.y - 1 + r.endX := by omega
        -- the pair before the last snake is unequal, so this snake ends before it
        have hlt' : p.u ≠ t.x := by
          intro heq
          have hsame := hpmatch.same_of_holds (i := t.x - 1) (j := t.y - 1) ⟨by omega, by omega⟩
          rw [hne] at hsame
          cases hsame
        exact Snake.Barred.of_pair hdiag' (by omega) (by omega) hne hcorner
      · obtain rfl := List.mem_singleton.1 hlast
        omega

/-- The snakes of the whole graph do not slide to its corner. -/
theorem barred (hc : c.Decides valid fails same)
    (h : Searched c same bound ⟨0, 0, c.oldCount, c.newCount⟩ snakes) :
    ∀ p ∈ snakes, p.u < c.oldCount → p.Barred same c.oldCount c.newCount := by
  intro p hp hlt
  cases h with
  | closed _ => cases hp
  | @divided _ first last hr f hfirst hlast =>
      cases hstart : c.likely 0 0 with
      | false =>
          exact (Searched.divided hr f hfirst hlast).barred_of_not_likely hc hr le_rfl le_rfl hstart
            p hp hlt
      | true =>
          have hdiv := c.divide_divided _ hr f
          obtain ⟨⟨hx, hy⟩, -, hstop⟩ := c.divide_of_likely _ hr f hstart
          generalize (c.divide _ hr f).1 = s at hdiv hx hy hstop hfirst hlast hp
          have hright := hdiv.right
          have hdiag := hdiv.matched.diagonal
          simp only at hx hy hright
          have hnext : s.u < c.oldCount → s.v < c.newCount → same s.u s.v = false :=
            fun hu hv => hc.not_same hu hv (hstop hu hv)
          rw [hfirst.eq_nil_of_start hx, List.nil_append] at hp
          rcases List.mem_append.1 hp with hp | hp
          · intro hcorner
            have hruns := confirmed_runs same s
            have hpdiag := hruns.diagonal p hp
            have hpmatch := (hruns.ascends.of_mem hp).1.diagonal
            refine Snake.Barred.of_stop hlt ?_ hcorner
            rcases hruns.stop p hp with heq | hstop
            · have hu : p.u = s.u := by omega
              have hv : p.v = s.v := by omega
              rw [hu, hv]
              exact hnext (by omega) (by omega)
            · exact hstop
          · have hafter : (Rect.after ⟨0, 0, c.oldCount, c.newCount⟩ s).isOpen := by
              by_contra hclosed
              rw [hlast.eq_nil hclosed] at hp
              cases hp
            exact hlast.barred_of_not_likely hc hafter le_rfl le_rfl
              (hstop hafter.1 hafter.2) p hp hlt

theorem head_of_same (hc : c.Decides valid fails same) (h : Searched c same bound r snakes)
    (hr : r.isOpen) (hx : r.endX ≤ c.oldCount) (hy : r.endY ≤ c.newCount)
    (hstart : same r.startX r.startY = true) :
    ∃ s rest, snakes = s :: rest ∧ s.x = r.startX ∧ s.y = r.startY := by
  have hopen := hr
  simp only [Rect.isOpen] at hopen
  cases h with
  | closed h => exact absurd hr h
  | @divided _ first last h f hfirst hlast =>
      have hlikely := hc.likely _ _ (by omega) (by omega) hstart
      obtain ⟨⟨hsx, hsy⟩, hlt, -⟩ := c.divide_of_likely r h f hlikely
      generalize (c.divide r h f).1 = s at hsx hsy hlt hfirst hlast
      obtain ⟨t, rest, heq, htx, hty⟩ :=
        (confirmed_runs same s).head_of_same (by omega) (by rwa [hsx, hsy])
      refine ⟨t, rest ++ last, ?_, by omega, by omega⟩
      rw [hfirst.eq_nil_of_start hsx, heq, List.nil_append, List.cons_append]

end Searched

end TokenDiff
