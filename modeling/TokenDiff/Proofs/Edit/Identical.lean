import Mathlib
import TokenDiff.Proofs.Edit.Script

/-!
# Scripts without edits

A script is identical if it has a single snake, and it has a single snake just if the sequences are of the
same length and each token is equal to the one at the same place. The search of such sequences takes the
whole diagonal at once (`search_of_same`), so it cannot stall even where no round is allowed for, and there
is nothing left to bracket or to slide. That a single snake misses nothing follows from where the snakes of
a script begin and end.
-/

namespace TokenDiff

variable {σ : Type} {c : Comparison σ} {valid : σ → Prop} {fails : Fault → Prop}
  {same : Nat → Nat → Bool} {script : Script}

theorem runsFrom_replicate (x y len n : Nat) :
    runsFrom x y len (List.replicate n true) =
      if len + n = 0 then [] else [⟨x, x + (len + n), y, y + (len + n)⟩] := by
  induction n generalizing len with
  | zero => rfl
  | succ n ih =>
      rw [List.replicate_succ, runsFrom, ih, Nat.add_right_comm, Nat.add_assoc]

/-- A snake whose pairs are all equal is kept as it is, unless it is empty. -/
theorem confirmed_of_matches {z : Snake} (h : z.Matches same) :
    confirmed same z = if z.x = z.u then [] else [z] := by
  have hmarks : ((List.range (z.u - z.x)).map fun k => same (z.x + k) (z.y + k)) =
      List.replicate (z.u - z.x) true := by
    rw [List.eq_replicate_iff]
    refine ⟨by simp, fun b hb => ?_⟩
    obtain ⟨k, hk, rfl⟩ := List.mem_map.1 hb
    exact h.equal k (List.mem_range.1 hk)
  obtain ⟨x, u, y, v⟩ := z
  have hxu := h.x_le_u
  have hdiag := h.diagonal
  rw [confirmed, hmarks, runsFrom_replicate]
  simp only at hxu hdiag ⊢
  split_ifs
  · rfl
  · omega
  · omega
  · congr 2 <;> omega

section

variable {n : Nat} (hc : c.Decides valid fails same) (hold : c.oldCount = n) (hnew : c.newCount = n)
  (hsame : ∀ i, i < n → same i i = true)

include hc hold hnew hsame

/-- Sequences that are equal throughout are divided at the whole diagonal. -/
theorem divide_of_same {bound : Nat} (h : Rect.isOpen ⟨0, 0, n, n⟩) (f : Frontiers bound) :
    (c.divide ⟨0, 0, n, n⟩ h f).1 = ⟨0, n, 0, n⟩ := by
  have hlikely : ∀ i, i < n → c.likely i i = true := fun i hi =>
    hc.likely i i (hold ▸ hi) (hnew ▸ hi) (hsame i hi)
  have hdiv := c.divide_divided ⟨0, 0, n, n⟩ h f
  obtain ⟨⟨hx, hy⟩, -, hstop⟩ := c.divide_of_likely ⟨0, 0, n, n⟩ h f (hlikely 0 h.1)
  have hu := hdiv.right.1
  have hdiag := hdiv.matched.diagonal
  generalize (c.divide ⟨0, 0, n, n⟩ h f).1 = z at hx hy hstop hu hdiag ⊢
  obtain ⟨x, u, y, v⟩ := z
  simp only at hx hy hstop hu hdiag
  have hv : v = u := by omega
  have hend : u = n := by
    by_contra hne
    have hlt : u < n := by omega
    have := hstop hlt (hv ▸ hlt)
    rw [hv, hlikely u hlt] at this
    cases this
  rw [hx, hy, hv, hend]

theorem search_of_same {bound : Nat} (f : Frontiers bound) :
    Ensures valid fails (c.search ⟨0, 0, n, n⟩ f) fun out =>
      out.1 = if n = 0 then [] else [⟨0, n, 0, n⟩] := by
  have hclosed {r : Rect} (hr : ¬ r.isOpen) (f : Frontiers bound) :
      Ensures valid fails (c.search r f) fun out => out.1 = [] := by
    rw [Comparison.search, dif_neg hr]
    exact .pure rfl
  by_cases h : Rect.isOpen ⟨0, 0, n, n⟩
  · have hpos : 0 < n := h.1
    have hwhole := divide_of_same hc hold hnew hsame h f
    have hbefore : ¬ (Rect.before ⟨0, 0, n, n⟩ ⟨0, n, 0, n⟩).isOpen := fun h => Nat.lt_irrefl _ h.1
    have hafter : ¬ (Rect.after ⟨0, 0, n, n⟩ ⟨0, n, 0, n⟩).isOpen := fun h => Nat.lt_irrefl _ h.1
    have hsmaller : ¬ (Rect.extent ⟨0, 0, n, n⟩ ≤ (Rect.before ⟨0, 0, n, n⟩ ⟨0, n, 0, n⟩).extent ∨
        Rect.extent ⟨0, 0, n, n⟩ ≤ (Rect.after ⟨0, 0, n, n⟩ ⟨0, n, 0, n⟩).extent) := by
      rw [Rect.extent, if_pos h, Rect.extent, if_neg hbefore, Rect.extent, if_neg hafter]
      simp only
      omega
    have hmatch : (⟨0, n, 0, n⟩ : Snake).Matches same :=
      ⟨Nat.zero_le n, rfl, fun k hk => by simpa using hsame k hk⟩
    have hown : confirmed same ⟨0, n, 0, n⟩ = [⟨0, n, 0, n⟩] := by
      rw [confirmed_of_matches hmatch, if_neg (Nat.ne_of_lt hpos)]
    rw [Comparison.search, dif_pos h]
    generalize c.divide ⟨0, 0, n, n⟩ h f = divided at hwhole
    obtain ⟨z, f'⟩ := divided
    obtain rfl : z = ⟨0, n, 0, n⟩ := hwhole
    dsimp only
    rw [if_neg hsmaller, if_neg (Nat.ne_of_gt hpos)]
    refine .bind (hclosed hbefore f') fun out hfirst => ?_
    refine .bind (confirm_ensures hc.equal (hold ▸ le_rfl) (hnew ▸ le_rfl) rfl (Nat.zero_le n)) ?_
    rintro own rfl
    refine .bind (hclosed hafter out.2) fun out' hlast => .pure ?_
    rw [hfirst, hlast, hown]
    rfl
  · have hzero : n = 0 := by
      by_contra hne
      exact h ⟨Nat.pos_of_ne_zero hne, Nat.pos_of_ne_zero hne⟩
    rw [if_pos hzero]
    exact hclosed h f

/-- Sequences that are equal throughout have a script of a single snake, also where no round is allowed
for. -/
theorem script_of_same (fast : Bool) (tuning : Tuning) :
    Ensures valid fails (c.script fast tuning) fun script =>
      script = ⟨[⟨0, n, 0, n⟩], n, n, tuning.maxDepth n n fast⟩ := by
  have hsnakes : Ensures valid fails (c.snakes (tuning.maxDepth c.oldCount c.newCount fast)) fun found =>
      bracket found c.oldCount c.newCount = [⟨0, n, 0, n⟩] := by
    unfold Comparison.snakes
    rw [hold, hnew]
    refine .bind (search_of_same hc hold hnew hsame _) fun out hout => .pure ?_
    rw [hout]
    split_ifs with hn
    · rw [hn]
      rfl
    · have hone : [⟨0, n, 0, n⟩] = [] ++ [(⟨0, n, 0, n⟩ : Snake)] := rfl
      rw [bracket_of_head (s := ⟨0, n, 0, n⟩) ⟨rfl, rfl⟩ hone, if_neg (by simp)]
  refine .bind hsnakes fun found hfound => ?_
  rw [hfound, Comparison.bias, pure_bind]
  refine .pure ?_
  rw [hold, hnew]

end

/-- A single snake from corner to corner leaves no token out. -/
theorem Settled.of_isIdentical {m n : Nat} (h : Settled same m n 0 0 script.snakes)
    (hone : script.isIdentical = true) : m = n ∧ ∀ i, i < m → same i i = true := by
  obtain ⟨z, hz⟩ := List.length_eq_one_iff.1 (beq_iff_eq.1 hone)
  obtain ⟨first, rest, hfirst, hx, hy⟩ := h.head
  rw [hz] at hfirst
  obtain ⟨rfl, -⟩ := List.cons.inj hfirst
  have hcorner := h.last z (by rw [hz]; rfl)
  obtain ⟨hmatch, -⟩ := h.ascends.of_mem (by rw [hz]; exact List.mem_singleton_self z)
  have hdiag := hmatch.diagonal
  refine ⟨by omega, fun i hi => ?_⟩
  have hequal := hmatch.equal i (by omega)
  rwa [hx, hy, Nat.zero_add] at hequal

end TokenDiff
