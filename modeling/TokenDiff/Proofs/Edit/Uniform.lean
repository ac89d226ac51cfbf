import TokenDiff.Proofs.Answer
import TokenDiff.Proofs.Edit.Script

/-!
# One script for all states

Where the comparison of two tokens never fails and answers the same in every valid state, so does the search
for a script: which rectangles it goes through depends on what may match, and the rest on the answers. It
may still stall, but then it does so from every valid state, at the same rectangle (`script_uniform`).
-/

namespace TokenDiff

variable {σ : Type} {c : Comparison σ} {valid : σ → Prop} {same : Nat → Nat → Bool} {bound : Nat}

theorem search_uniform (hc : c.Decides valid (fun _ => False) same) (r : Rect) (f : Frontiers bound)
    (hx : r.endX ≤ c.oldCount) (hy : r.endY ≤ c.newCount) : Uniform valid (c.search r f) := by
  induction r, f using Comparison.search.induct c with
  | case1 r f h s f' hdivide hlarge =>
      rw [Comparison.search, dif_pos h]
      simp only [hdivide, if_pos hlarge]
      exact .throw _
  | case2 r f h s f' hdivide hsmall ihbefore ihafter =>
      have hdiv : r.Divided c.likely bound s := by
        have := c.divide_divided r h f
        rwa [hdivide] at this
      have hxu := hdiv.matched.x_le_u
      have hdiag := hdiv.matched.diagonal
      have hright := hdiv.right
      rw [Comparison.search, dif_pos h]
      simp only [hdivide, if_neg hsmall]
      refine .bind (ihbefore (by simp only [Rect.before]; omega) (by simp only [Rect.before]; omega))
        fun out => ?_
      refine .bind (confirm_ensures hc.equal (by omega) (by omega) hdiag hxu).uniform fun own => ?_
      exact .bind (ihafter out.2 hx hy) fun out' => .pure _
  | case3 r f h =>
      rw [Comparison.search, dif_neg h]
      exact .pure _

theorem mayGrow_uniform (hc : c.Decides valid (fun _ => False) same) (s : Snake) :
    Uniform valid (c.mayGrow s) := by
  unfold Comparison.mayGrow
  split_ifs with h
  · exact (hc.equal _ _ h.1 h.2).uniform
  · exact .pure false

theorem slide_uniform (hc : c.Decides valid (fun _ => False) same) (s t : Snake) (rest : List Snake) :
    Uniform valid (c.slide s t rest) := by
  induction s, t, rest using Comparison.slide.induct c with
  | case1 s t rest ihused ihfree ihstop =>
      cases rest with
      | nil =>
          rw [Comparison.slide]
          refine .bind (mayGrow_uniform hc s) fun equal => ?_
          split_ifs with hgrow hmeet
          · exact ihused equal hgrow
          · exact ihfree equal hgrow
          · exact .pure _
      | cons follower rest =>
          rw [Comparison.slide]
          refine .bind (mayGrow_uniform hc s) fun equal => ?_
          split_ifs with hgrow hmeet hused
          · exact (ihused equal hgrow).1
          · exact (ihused equal hgrow).2
          · exact ihfree equal hgrow
          · exact .bind ihstop fun out => .pure _

theorem script_uniform (hc : c.Decides valid (fun _ => False) same) (fast : Bool) (tuning : Tuning) :
    Uniform valid (c.script fast tuning) := by
  have hbias (snakes : List Snake) : Uniform valid (c.bias snakes) := by
    match snakes with
    | [] => exact .pure _
    | [s] => exact .pure _
    | s :: t :: rest => exact slide_uniform hc s t rest
  refine .bind (.bind (search_uniform hc _ _ le_rfl le_rfl) fun out => .pure _) fun found => ?_
  exact .bind (hbias _) fun snakes => .pure _

end TokenDiff
