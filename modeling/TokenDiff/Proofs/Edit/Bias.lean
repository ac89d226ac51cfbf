import TokenDiff.Proofs.Answer
import TokenDiff.Proofs.Edit.Script

/-!
# Sliding the snakes of any list

A list of snakes can be slid wherever it comes from. All that is asked of it is that it `Spans` both sequences:
the snakes lead from corner to corner over equal pairs, and none but the first and the last of them may be empty.
Then the list that it comes to spans them as well, with no fewer pairs. Each of its snakes begins on the snake that
it was before (`Snake.StartsIn`), so none is moved past its own end on the way.

None but the last snake of the outcome can be slid any further, and a list like that is left as it is
(`bias_of_stuck`). This is why nothing changes when the outcome is slid once more (`bias_safe`).
-/

namespace TokenDiff

variable {σ : Type} {c : Comparison σ} {valid : σ → Prop} {fails : Fault → Prop}
  {same : Nat → Nat → Bool} {endX endY : Nat}

/-- The snakes lead from corner to corner over equal pairs, and none but the first and the last may be empty. -/
structure Spans (same : Nat → Nat → Bool) (endX endY : Nat) (snakes : List Snake) : Prop where
  first : ∃ s rest, snakes = s :: rest ∧ s.x = 0 ∧ s.y = 0
  last : ∃ init s, snakes = init ++ [s] ∧ s.u = endX ∧ s.v = endY
  ordered : snakes.IsChain fun s t => s.u ≤ t.x ∧ s.v ≤ t.y
  matched : ∀ s ∈ snakes, s.Matches same
  nonempty : ∀ s ∈ snakes.tail.dropLast, s.x < s.u

/-! ## Where the snakes begin -/

def Snake.StartsIn (s t : Snake) : Prop := (t.x ≤ s.x ∧ s.x ≤ t.u) ∧ s.x + t.y = s.y + t.x

namespace Snake.StartsIn

variable {s t : Snake}

theorem of_eq (ht : t.x ≤ t.u) (hx : s.x = t.x) (hy : s.y = t.y) : s.StartsIn t := by
  unfold StartsIn
  omega

theorem of_shrink (h : s.StartsIn t.shrink) : s.StartsIn t := by
  simp only [StartsIn, Snake.shrink] at h ⊢
  omega

end Snake.StartsIn

namespace Slides

variable {s t : Snake} {rest out : List Snake}

/-- The snakes after the first one begin where they did, or further on in what they were before. -/
theorem tail_startsIn (h : Slides same endX endY s t rest out) (hlink : Linked same endX endY s t rest) :
    List.SublistForall₂ Snake.StartsIn out.tail (t :: rest) := by
  induction h with
  | free hgrow hmeet _ ih => exact ih (hlink.free hgrow hmeet)
  | @eat s t rest out hgrow hmeet hused _ ih =>
      -- what begins on the rest of `t` begins on `t`
      have hrest := ih (hlink.eat hgrow hmeet hused)
      generalize out.tail = tail at hrest ⊢
      cases hrest with
      | nil => exact .nil
      | cons hstart hrest => exact .cons hstart.of_shrink hrest
      | cons_right hrest => exact .cons_right hrest
  | drop hgrow _ hused _ ih => exact .cons_right (ih (hlink.drop hgrow hused))
  | stop _ => exact .cons (.of_eq hlink.ascends.2.1.x_le_u rfl rfl) .nil
  | next _ hnext ih =>
      have hrest := ih hlink.next
      obtain ⟨p, out', rfl, hx, hy⟩ := hnext.head
      exact .cons (.of_eq hlink.ascends.2.1.x_le_u hx hy) hrest

theorem startsIn (h : Slides same endX endY s t rest out) (hlink : Linked same endX endY s t rest) :
    List.SublistForall₂ Snake.StartsIn out (s :: t :: rest) := by
  have hrest := h.tail_startsIn hlink
  obtain ⟨p, out', rfl, hx, hy⟩ := h.head
  exact .cons (.of_eq hlink.matched.x_le_u hx hy) hrest

end Slides

/-! ## What a list that spans both sequences comes to -/

/-- Snakes that do not overlap ascend to the end of the last one. -/
theorem Ascends.of_isChain {s : Snake} {rest : List Snake}
    (hchain : (s :: rest).IsChain fun p q => p.u ≤ q.x ∧ p.v ≤ q.y)
    (hmatch : ∀ p ∈ s :: rest, p.Matches same)
    (hlast : ∀ p ∈ (s :: rest).getLast?, p.u = endX ∧ p.v = endY) :
    Ascends same endX endY s.x s.y (s :: rest) := by
  induction rest generalizing s with
  | nil =>
      have hcorner := hlast s rfl
      exact ⟨⟨le_rfl, le_rfl⟩, hmatch s List.mem_cons_self, hcorner.1.le, hcorner.2.le⟩
  | cons t rest ih =>
      obtain ⟨hle, hchain⟩ := List.isChain_cons_cons.1 hchain
      have hrest := ih hchain (fun p hp => hmatch p (List.mem_cons_of_mem s hp)) hlast
      exact ⟨⟨le_rfl, le_rfl⟩, hmatch s List.mem_cons_self, hrest.of_le hle.1 hle.2⟩

namespace Spans

variable {s t : Snake} {rest snakes : List Snake}

theorem corner (h : Spans same endX endY snakes) : ∀ p ∈ snakes.getLast?, p.u = endX ∧ p.v = endY := by
  obtain ⟨init, z, rfl, hcorner⟩ := h.last
  intro p hp
  rw [List.getLast?_concat] at hp
  obtain rfl := Option.some.inj hp
  exact hcorner

theorem ascends (h : Spans same endX endY snakes) : Ascends same endX endY 0 0 snakes := by
  obtain ⟨s, rest, rfl, hx, hy⟩ := h.first
  have hasc := Ascends.of_isChain h.ordered h.matched h.corner
  rwa [hx, hy] at hasc

theorem linked (h : Spans same endX endY (s :: t :: rest)) : Linked same endX endY s t rest :=
  ⟨h.ascends.2.1, h.ascends.2.2, h.corner, h.nonempty⟩

end Spans

theorem Slides.spans {s t : Snake} {rest out : List Snake} (h : Slides same endX endY s t rest out)
    (hlink : Linked same endX endY s t rest) (hs : s.x = 0 ∧ s.y = 0) : Spans same endX endY out := by
  have hasc := h.ascends hlink
  constructor
  case first =>
    obtain ⟨p, out', heq, hx, hy⟩ := h.head
    exact ⟨p, out', heq, hx.trans hs.1, hy.trans hs.2⟩
  case last =>
    obtain ⟨init, z, heq⟩ := (List.eq_nil_or_concat' out).resolve_left h.ne_nil
    exact ⟨init, z, heq, h.last hlink z (by rw [heq, List.getLast?_concat]; rfl)⟩
  case ordered => exact hasc.isChain
  case matched => exact fun p hp => (hasc.of_mem hp).1
  case nonempty => exact h.tail_nonempty hlink

variable {snakes : List Snake}

theorem bias_ensures_of_spans (hc : c.Judges valid fails same)
    (h : Spans same c.oldCount c.newCount snakes) :
    Ensures valid fails (c.bias snakes) fun out =>
      Spans same c.oldCount c.newCount out ∧ matched snakes ≤ matched out ∧
      List.SublistForall₂ Snake.StartsIn out snakes ∧
      ∀ s ∈ out.dropLast, ¬ s.Grows same c.oldCount c.newCount := by
  obtain ⟨s, rest, rfl, hs⟩ := h.first
  cases rest with
  | nil =>
      have hself := Snake.StartsIn.of_eq (h.matched s List.mem_cons_self).x_le_u rfl rfl
      exact .pure ⟨h, le_rfl, .cons hself .nil, by simp⟩
  | cons t rest =>
      refine (slide_ensures hc s t rest).imp fun out hslides => ?_
      have hlink := h.linked
      exact ⟨hslides.spans hlink hs, hslides.matched_le hlink, hslides.startsIn hlink, hslides.stuck⟩

/-! ## Snakes that cannot be slid -/

theorem Slides.eq_of_stuck {s t : Snake} {rest out : List Snake} (h : Slides same endX endY s t rest out)
    (hstuck : ∀ p ∈ (s :: t :: rest).dropLast, ¬ p.Grows same endX endY) : out = s :: t :: rest := by
  induction h with
  | free hgrow _ _ _ => exact absurd hgrow (hstuck _ List.mem_cons_self)
  | eat hgrow _ _ _ _ => exact absurd hgrow (hstuck _ List.mem_cons_self)
  | drop hgrow _ _ _ _ => exact absurd hgrow (hstuck _ List.mem_cons_self)
  | stop _ => rfl
  | next _ _ ih => rw [ih fun p hp => hstuck p (List.mem_cons_of_mem _ hp)]

/-- A list of which no snake but the last could be slid is left as it is. -/
theorem bias_of_stuck (hc : c.Judges valid fails same)
    (hstuck : ∀ s ∈ snakes.dropLast, ¬ s.Grows same c.oldCount c.newCount) :
    Ensures valid fails (c.bias snakes) (· = snakes) := by
  match snakes with
  | [] => exact .pure rfl
  | [s] => exact .pure rfl
  | s :: t :: rest => exact (slide_ensures hc s t rest).imp fun out hslides => hslides.eq_of_stuck hstuck

theorem Snake.not_grows_iff {s : Snake} (hu : s.u ≤ endX) (hv : s.v ≤ endY) :
    ¬ s.Grows same endX endY ↔ s.u = endX ∨ s.v = endY ∨ same s.u s.v = false := by
  rw [Snake.Grows, not_and_or, not_and_or, Bool.not_eq_true, or_assoc]
  refine or_congr ?_ (or_congr ?_ Iff.rfl)
  · omega
  · omega

/-- Snakes that span both sequences can always be slid. They still span them afterwards, with no fewer pairs, and each
begins where it did or further on in what it was before, not beyond its end. None but the last could be slid any
further, and to slide them once more changes nothing. -/
theorem bias_safe (hc : c.Judges valid (fun _ => False) same)
    (h : Spans same c.oldCount c.newCount snakes) {s : σ} (hs : valid s) :
    ∃ out t, c.bias snakes s = .ok out t ∧ valid t ∧
      Spans same c.oldCount c.newCount out ∧
      matched snakes ≤ matched out ∧
      List.SublistForall₂ Snake.StartsIn out snakes ∧
      (∀ p ∈ out.dropLast, p.u = c.oldCount ∨ p.v = c.newCount ∨ same p.u p.v = false) ∧
      Answers valid (c.bias out) out valid := by
  obtain ⟨out, t, hrun, ht, hspans, hle, hstarts, hstuck⟩ := (bias_ensures_of_spans hc h).exists_ok hs
  refine ⟨out, t, hrun, ht, hspans, hle, hstarts, fun p hp => ?_, (bias_of_stuck hc hstuck).answers⟩
  obtain ⟨-, -, hu, hv⟩ := hspans.ascends.of_mem (List.dropLast_subset _ hp)
  exact (Snake.not_grows_iff hu hv).1 (hstuck p hp)

/-- The first snake swallows two others in a row here, each cut on one side only, and then uses up the last one, which
is kept. -/
theorem bias_safe_of_swallowed :
    Spans (fun i j => [7, 7, 7, 7, 7, 7][i]? == [7, 7, 7, 7][j]?) 6 4
      [⟨0, 0, 0, 0⟩, ⟨1, 2, 0, 1⟩, ⟨3, 4, 1, 2⟩, ⟨4, 6, 2, 4⟩] ∧
    (Comparison.ofLists id [7, 7, 7, 7, 7, 7] [7, 7, 7, 7]).bias
      [⟨0, 0, 0, 0⟩, ⟨1, 2, 0, 1⟩, ⟨3, 4, 1, 2⟩, ⟨4, 6, 2, 4⟩] () = .ok [⟨0, 4, 0, 4⟩, ⟨6, 6, 4, 4⟩] () ∧
    Spans (fun i j => [7, 7, 7, 7, 7, 7][i]? == [7, 7, 7, 7][j]?) 6 4 [⟨0, 4, 0, 4⟩, ⟨6, 6, 4, 4⟩] ∧
    (Comparison.ofLists id [7, 7, 7, 7, 7, 7] [7, 7, 7, 7]).bias [⟨0, 4, 0, 4⟩, ⟨6, 6, 4, 4⟩] () =
      .ok [⟨0, 4, 0, 4⟩, ⟨6, 6, 4, 4⟩] () := by
  have hspans : Spans (fun i j => [7, 7, 7, 7, 7, 7][i]? == [7, 7, 7, 7][j]?) 6 4
      [⟨0, 0, 0, 0⟩, ⟨1, 2, 0, 1⟩, ⟨3, 4, 1, 2⟩, ⟨4, 6, 2, 4⟩] := by
    constructor
    case first => exact ⟨_, _, rfl, rfl, rfl⟩
    case last => exact ⟨[⟨0, 0, 0, 0⟩, ⟨1, 2, 0, 1⟩, ⟨3, 4, 1, 2⟩], ⟨4, 6, 2, 4⟩, rfl, rfl, rfl⟩
    case ordered => decide
    case matched =>
      simp only [List.forall_mem_cons, List.not_mem_nil, false_imp_iff, implies_true, and_true]
      exact ⟨⟨by decide, by decide, by decide⟩, ⟨by decide, by decide, by decide⟩,
        ⟨by decide, by decide, by decide⟩, ⟨by decide, by decide, by decide⟩⟩
    case nonempty => decide
  have hrun : (Comparison.ofLists id [7, 7, 7, 7, 7, 7] [7, 7, 7, 7]).bias
      [⟨0, 0, 0, 0⟩, ⟨1, 2, 0, 1⟩, ⟨3, 4, 1, 2⟩, ⟨4, 6, 2, 4⟩] () = .ok [⟨0, 4, 0, 4⟩, ⟨6, 6, 4, 4⟩] () := by
    cbv
  obtain ⟨out, t, hout, -, hspans', -, -, -, hagain⟩ :=
    bias_safe (Comparison.ofLists_decides id [7, 7, 7, 7, 7, 7] [7, 7, 7, 7]).equal hspans (s := ()) trivial
  obtain rfl : [⟨0, 4, 0, 4⟩, ⟨6, 6, 4, 4⟩] = out := by
    rw [hrun] at hout
    cases hout
    rfl
  obtain ⟨t', hout', -⟩ := hagain () trivial
  exact ⟨hspans, hrun, hspans', hout'⟩

end TokenDiff
