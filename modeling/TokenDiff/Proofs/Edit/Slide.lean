import TokenDiff.Proofs.Edit.Corner

/-!
# Sliding snakes forward

`Slides same endX endY s t rest out` is a derivation of what becomes of the snakes `s`, `t` and `rest` when
each is slid forward as far as its tokens allow. A snake that is slid takes up free pairs first and then the
pairs of the snake after it; one that is used up is dropped unless it is the last one.

A list that leads on to the corner, `Linked`, stays one with every step, and no step loses a pair. What it
comes to leads from corner to corner too, and none but the last snake could go further. If the snakes are also
barred from the corner, `Slidable`, the outcome is `Settled`: between two snakes there is always something
unmatched. Without the bar this fails, since a last snake that is used up is kept.
-/

namespace TokenDiff

variable {σ : Type} {c : Comparison σ} {valid : σ → Prop} {fails : Fault → Prop}
  {same : Nat → Nat → Bool} {bound x y endX endY : Nat}

namespace Snake

variable {s t : Snake}

/-- The pair after the snake is equal. -/
def Grows (same : Nat → Nat → Bool) (endX endY : Nat) (s : Snake) : Prop :=
  (s.u < endX ∧ s.v < endY) ∧ same s.u s.v = true

/-- With one more pair the snake `s` would run into `t`. -/
def Meets (s t : Snake) : Prop := s.u + 1 > t.x ∨ s.v + 1 > t.y

theorem Matches.grow (h : s.Matches same) (hsame : same s.u s.v = true) : s.grow.Matches same := by
  have hxu := h.x_le_u
  have hdiag := h.diagonal
  refine ⟨Nat.le_succ_of_le hxu, by simp only [Snake.grow]; omega, fun k hk => ?_⟩
  simp only [Snake.grow] at hk ⊢
  rcases Nat.lt_or_ge k (s.u - s.x) with hlt | hge
  · exact h.equal k hlt
  · have hu : s.x + k = s.u := by omega
    have hv : s.y + k = s.v := by omega
    rwa [hu, hv]

theorem Matches.shrink (h : s.Matches same) (hlt : s.x < s.u) : s.shrink.Matches same := by
  have hdiag := h.diagonal
  refine ⟨hlt, by simp only [Snake.shrink]; omega, fun k hk => ?_⟩
  simp only [Snake.shrink] at hk ⊢
  exact h.same_of_holds ⟨by omega, by omega⟩

end Snake

/-! ## Derivations of a slide -/

/-- Sliding `s` forward, and then the snakes after it, gives the list. -/
inductive Slides (same : Nat → Nat → Bool) (endX endY : Nat) :
    Snake → Snake → List Snake → List Snake → Prop
  | free {s t : Snake} {rest out : List Snake} :
    s.Grows same endX endY → ¬ s.Meets t → Slides same endX endY s.grow t rest out →
    Slides same endX endY s t rest out
  | eat {s t : Snake} {rest out : List Snake} :
    s.Grows same endX endY → s.Meets t → (rest = [] ∨ t.shrink.x ≠ t.shrink.u) →
    Slides same endX endY s.grow t.shrink rest out → Slides same endX endY s t rest out
  | drop {s t follower : Snake} {rest out : List Snake} :
    s.Grows same endX endY → s.Meets t → t.shrink.x = t.shrink.u →
    Slides same endX endY s.grow follower rest out →
    Slides same endX endY s t (follower :: rest) out
  | stop {s t : Snake} : ¬ s.Grows same endX endY → Slides same endX endY s t [] [s, t]
  | next {s t follower : Snake} {rest out : List Snake} :
    ¬ s.Grows same endX endY → Slides same endX endY t follower rest out →
    Slides same endX endY s t (follower :: rest) (s :: out)

theorem mayGrow_ensures (hc : c.Judges valid fails same) (s : Snake) :
    Ensures valid fails (c.mayGrow s) fun equal =>
      equal = true ↔ s.Grows same c.oldCount c.newCount := by
  unfold Comparison.mayGrow
  split_ifs with h
  · refine (hc _ _ h.1 h.2).imp ?_
    rintro equal rfl
    simp [Snake.Grows, h]
  · refine .pure ?_
    simp [Snake.Grows, h]

theorem slide_ensures (hc : c.Judges valid fails same) (s t : Snake) (rest : List Snake) :
    Ensures valid fails (c.slide s t rest) (Slides same c.oldCount c.newCount s t rest) := by
  induction s, t, rest using Comparison.slide.induct c with
  | case1 s t rest ihused ihfree ihstop =>
      cases rest with
      | nil =>
          rw [Comparison.slide]
          refine .bind (mayGrow_ensures hc s) fun equal hequal => ?_
          split_ifs with hgrow hmeet
          · exact (ihused equal hgrow).imp fun _ h => .eat (hequal.1 hgrow.1) hmeet (.inl rfl) h
          · exact (ihfree equal hgrow).imp fun _ h => .free (hequal.1 hgrow.1) hmeet h
          · exact .pure (.stop fun h => hgrow ⟨hequal.2 h, h.1.1⟩)
      | cons follower rest =>
          rw [Comparison.slide]
          refine .bind (mayGrow_ensures hc s) fun equal hequal => ?_
          split_ifs with hgrow hmeet hused
          · exact (ihused equal hgrow).1.imp fun _ h => .drop (hequal.1 hgrow.1) hmeet hused h
          · exact (ihused equal hgrow).2.imp fun _ h =>
              .eat (hequal.1 hgrow.1) hmeet (.inr hused) h
          · exact (ihfree equal hgrow).imp fun _ h => .free (hequal.1 hgrow.1) hmeet h
          · refine .bind ihstop fun out h => ?_
            exact .pure (.next (fun h => hgrow ⟨hequal.2 h, h.1.1⟩) h)

/-! ## Lists that can be slid -/

/-- The snake `s`, and `t` and `rest` that lead on to the corner. None but `s` and the last one may be
empty. -/
structure Linked (same : Nat → Nat → Bool) (endX endY : Nat) (s t : Snake) (rest : List Snake) :
    Prop where
  matched : s.Matches same
  ascends : Ascends same endX endY s.u s.v (t :: rest)
  last : ∀ p ∈ (t :: rest).getLast?, p.u = endX ∧ p.v = endY
  nonempty : ∀ p ∈ (t :: rest).dropLast, p.x < p.u

namespace Linked

variable {s t follower : Snake} {rest : List Snake}

theorem lt_of_meets (h : Linked same endX endY s t rest) (hgrow : s.Grows same endX endY)
    (hmeet : s.Meets t) : t.x < t.u := by
  cases rest with
  | nil =>
      -- the last snake may be empty, but then it stands at the corner, and `s` ends before that on both sides
      obtain ⟨hlt, -⟩ := hgrow
      have hmeet' : s.u + 1 > t.x ∨ s.v + 1 > t.y := hmeet
      have hcorner := h.last t rfl
      have hdiag := h.ascends.2.1.diagonal
      omega
  | cons follower rest =>
      refine h.nonempty t ?_
      rw [List.dropLast_cons_cons]
      exact List.mem_cons_self

theorem free (h : Linked same endX endY s t rest) (hgrow : s.Grows same endX endY)
    (hmeet : ¬ s.Meets t) : Linked same endX endY s.grow t rest := by
  simp only [Snake.Meets, not_or, not_lt] at hmeet
  exact ⟨h.matched.grow hgrow.2, ⟨hmeet, h.ascends.2⟩, h.last, h.nonempty⟩

theorem eat (h : Linked same endX endY s t rest) (hgrow : s.Grows same endX endY)
    (hmeet : s.Meets t) (hused : rest = [] ∨ t.shrink.x ≠ t.shrink.u) :
    Linked same endX endY s.grow t.shrink rest := by
  have hlt := h.lt_of_meets hgrow hmeet
  obtain ⟨hle, ht, hrest⟩ := h.ascends
  constructor
  case matched => exact h.matched.grow hgrow.2
  case ascends =>
    exact ⟨⟨Nat.succ_le_succ hle.1, Nat.succ_le_succ hle.2⟩, ht.shrink hlt, hrest⟩
  case last =>
    intro p hp
    cases rest with
    | nil =>
        obtain rfl := Option.some.inj hp
        exact h.last t rfl
    | cons follower rest => exact h.last p hp
  case nonempty =>
    intro p hp
    cases rest with
    | nil => cases hp
    | cons follower rest =>
        rw [List.dropLast_cons_cons] at hp
        rcases List.mem_cons.1 hp with rfl | hp
        · exact lt_of_le_of_ne hlt (hused.resolve_left (List.cons_ne_nil _ _))
        · exact h.nonempty p (List.mem_cons_of_mem t hp)

theorem drop (h : Linked same endX endY s t (follower :: rest)) (hgrow : s.Grows same endX endY)
    (hused : t.shrink.x = t.shrink.u) : Linked same endX endY s.grow follower rest := by
  obtain ⟨hle, ht, hrest⟩ := h.ascends
  have hdiag := ht.diagonal
  simp only [Snake.shrink] at hused
  refine ⟨h.matched.grow hgrow.2, hrest.of_le ?_ ?_, h.last, fun p hp => h.nonempty p ?_⟩
  · simp only [Snake.grow]
    omega
  · simp only [Snake.grow]
    omega
  · exact List.mem_cons_of_mem t hp

theorem next (h : Linked same endX endY s t (follower :: rest)) : Linked same endX endY t follower rest :=
  ⟨h.ascends.2.1, h.ascends.2.2, h.last, fun p hp => h.nonempty p (List.mem_cons_of_mem t hp)⟩

theorem lt_of_cons (h : Linked same endX endY s t (follower :: rest)) : t.x < t.u :=
  h.nonempty t List.mem_cons_self

end Linked

/-! ## Lists that cannot be slid to the corner -/

/-- The snakes `t` and `rest` lead from `(x, y)` to the corner, which the last one ends at. All others hold
a pair and are barred from the corner. -/
def Follows (same : Nat → Nat → Bool) (endX endY : Nat) : Nat → Nat → Snake → List Snake → Prop
  | x, y, t, [] => (x ≤ t.x ∧ y ≤ t.y) ∧ t.Matches same ∧ (t.u = endX ∧ t.v = endY)
  | x, y, t, follower :: rest => (x ≤ t.x ∧ y ≤ t.y) ∧ t.Matches same ∧
    (t.x < t.u ∧ t.Barred same endX endY) ∧ Follows same endX endY t.u t.v follower rest

namespace Follows

variable {s t follower : Snake} {rest init : List Snake}

theorem head_le (h : Follows same endX endY x y t rest) : x ≤ t.x ∧ y ≤ t.y := by
  cases rest with
  | nil => exact h.1
  | cons follower rest => exact h.1

theorem ascends (h : Follows same endX endY x y t rest) :
    Ascends same endX endY x y (t :: rest) := by
  induction rest generalizing x y t with
  | nil =>
      obtain ⟨hle, ht, hcorner⟩ := h
      exact ⟨hle, ht, hcorner.1.le, hcorner.2.le⟩
  | cons follower rest ih =>
      obtain ⟨hle, ht, -, hrest⟩ := h
      exact ⟨hle, ht, ih hrest⟩

theorem last (h : Follows same endX endY x y t rest) :
    ∀ p ∈ (t :: rest).getLast?, p.u = endX ∧ p.v = endY := by
  induction rest generalizing x y t with
  | nil =>
      intro p hp
      obtain rfl := Option.some.inj hp
      exact h.2.2
  | cons follower rest ih => exact ih h.2.2.2

theorem nonempty (h : Follows same endX endY x y t rest) :
    ∀ p ∈ (t :: rest).dropLast, p.x < p.u := by
  induction rest generalizing x y t with
  | nil => simp
  | cons follower rest ih =>
      intro p hp
      rw [List.dropLast_cons_cons] at hp
      rcases List.mem_cons.1 hp with rfl | hp
      · exact h.2.2.1.1
      · exact ih h.2.2.2 p hp

theorem of_le {x' y' : Nat} (h : Follows same endX endY x y t rest) (hx : x' ≤ t.x)
    (hy : y' ≤ t.y) : Follows same endX endY x' y' t rest := by
  cases rest with
  | nil => exact ⟨⟨hx, hy⟩, h.2⟩
  | cons follower rest => exact ⟨⟨hx, hy⟩, h.2⟩

theorem shrink (h : Follows same endX endY x y t rest) (hlt : t.x < t.u)
    (hused : rest = [] ∨ t.shrink.x ≠ t.shrink.u) :
    Follows same endX endY (x + 1) (y + 1) t.shrink rest := by
  have hle := h.head_le
  have hle' : x + 1 ≤ t.shrink.x ∧ y + 1 ≤ t.shrink.y :=
    ⟨Nat.succ_le_succ hle.1, Nat.succ_le_succ hle.2⟩
  cases rest with
  | nil => exact ⟨hle', h.2.1.shrink hlt, h.2.2⟩
  | cons follower rest =>
      obtain ⟨-, ht, ⟨-, hbarred⟩, hrest⟩ := h
      have hne := hused.resolve_left (List.cons_ne_nil _ _)
      simp only [Snake.shrink] at hne
      refine ⟨hle', ht.shrink hlt, ⟨?_, hbarred⟩, hrest⟩
      simp only [Snake.shrink]
      omega

theorem of_ascends {z : Snake} (hlist : t :: rest = init ++ [z])
    (h : Ascends same endX endY x y (t :: rest)) (hz : z.u = endX ∧ z.v = endY)
    (hinit : ∀ p ∈ init, p.x < p.u ∧ p.Barred same endX endY) :
    Follows same endX endY x y t rest := by
  induction rest generalizing x y t init with
  | nil =>
      obtain ⟨rfl, hzt⟩ := List.append_eq_singleton_iff.1 hlist.symm |>.resolve_right (by simp)
      obtain rfl := List.singleton_inj.1 hzt
      exact ⟨h.1, h.2.1, hz⟩
  | cons follower rest ih =>
      cases init with
      | nil => simp at hlist
      | cons p init =>
          obtain ⟨rfl, hrest⟩ := List.cons.inj hlist
          have hp := hinit t List.mem_cons_self
          exact ⟨h.1, h.2.1, hp, ih hrest h.2.2 fun p hp => hinit p (List.mem_cons_of_mem _ hp)⟩

end Follows

/-- The snake `s` can be slid into `t` and the snakes after it. -/
structure Slidable (same : Nat → Nat → Bool) (endX endY : Nat) (s t : Snake) (rest : List Snake) :
    Prop where
  matched : s.Matches same
  barred : s.Barred same endX endY
  follows : Follows same endX endY s.u s.v t rest

namespace Slidable

variable {s t follower : Snake} {rest out : List Snake}

theorem linked (h : Slidable same endX endY s t rest) : Linked same endX endY s t rest :=
  ⟨h.matched, h.follows.ascends, h.follows.last, h.follows.nonempty⟩

theorem free (h : Slidable same endX endY s t rest) (hgrow : s.Grows same endX endY)
    (hmeet : ¬ s.Meets t) : Slidable same endX endY s.grow t rest := by
  simp only [Snake.Meets] at hmeet
  refine ⟨h.matched.grow hgrow.2, h.barred.grow hgrow.2, h.follows.of_le ?_ ?_⟩
  · simp only [Snake.grow]
    omega
  · simp only [Snake.grow]
    omega

theorem eat (h : Slidable same endX endY s t rest) (hgrow : s.Grows same endX endY)
    (hmeet : s.Meets t) (hused : rest = [] ∨ t.shrink.x ≠ t.shrink.u) :
    Slidable same endX endY s.grow t.shrink rest :=
  ⟨h.matched.grow hgrow.2, h.barred.grow hgrow.2,
    h.follows.shrink (h.linked.lt_of_meets hgrow hmeet) hused⟩

theorem drop (h : Slidable same endX endY s t (follower :: rest)) (hgrow : s.Grows same endX endY)
    (hused : t.shrink.x = t.shrink.u) : Slidable same endX endY s.grow follower rest := by
  obtain ⟨hle, ht, -, hrest⟩ := h.follows
  have hle' := hrest.head_le
  have hdiag := ht.diagonal
  simp only [Snake.shrink] at hused
  refine ⟨h.matched.grow hgrow.2, h.barred.grow hgrow.2, hrest.of_le ?_ ?_⟩
  · simp only [Snake.grow]
    omega
  · simp only [Snake.grow]
    omega

theorem next (h : Slidable same endX endY s t (follower :: rest)) :
    Slidable same endX endY t follower rest := by
  obtain ⟨-, ht, ⟨-, hbarred⟩, hrest⟩ := h.follows
  exact ⟨ht, hbarred, hrest⟩

/-- Before a snake that cannot grow is slid into it, something unmatched lies before the next one. -/
theorem gap (h : Slidable same endX endY s t rest) (hgrow : ¬ s.Grows same endX endY) :
    s.u < t.x ∨ s.v < t.y := by
  have hle := h.follows.head_le
  have hasc := h.follows.ascends
  obtain ⟨-, ht, htail⟩ := hasc
  have hend := htail.le
  have hdiag := ht.diagonal
  by_contra hno
  have hu : s.u = t.x := by omega
  have hv : s.v = t.y := by omega
  rcases ht.x_le_u.eq_or_lt with hempty | hlt
  · -- only the last snake may be empty, and `s` would end at the corner
    have hcorner : t.u = endX ∧ t.v = endY := by
      have hfollows := h.follows
      cases rest with
      | nil => exact hfollows.2.2
      | cons follower rest =>
          have := hfollows.2.2.1.1
          omega
    exact h.barred.not_corner (by omega)
  · refine hgrow ⟨by omega, ?_⟩
    rw [hu, hv]
    exact ht.equal 0 (by omega)

end Slidable

/-! ## What a slide comes to -/

/-- The snakes lead from `(x, y)` to the corner, and none but the last can be slid any further. -/
structure Settled (same : Nat → Nat → Bool) (endX endY x y : Nat) (snakes : List Snake) : Prop where
  head : ∃ s rest, snakes = s :: rest ∧ s.x = x ∧ s.y = y
  ascends : Ascends same endX endY x y snakes
  last : ∀ s ∈ snakes.getLast?, s.u = endX ∧ s.v = endY
  stuck : ∀ s ∈ snakes.dropLast, ¬ s.Grows same endX endY
  gaps : snakes.IsChain fun s t => s.u < t.x ∨ s.v < t.y
  nonempty : ∀ s ∈ snakes.tail.dropLast, s.x < s.u

theorem Settled.singleton {s : Snake} (hs : s.Matches same) (hcorner : s.u = endX ∧ s.v = endY) :
    Settled same endX endY s.x s.y [s] := by
  constructor
  case head => exact ⟨s, [], rfl, rfl, rfl⟩
  case ascends => exact ⟨⟨le_rfl, le_rfl⟩, hs, hcorner.1.le, hcorner.2.le⟩
  case last =>
    intro t ht
    obtain rfl := Option.some.inj ht
    exact hcorner
  case stuck => simp
  case gaps => exact .singleton s
  case nonempty => simp

namespace Slides

variable {s t : Snake} {rest out : List Snake}

theorem head (h : Slides same endX endY s t rest out) :
    ∃ p out', out = p :: out' ∧ p.x = s.x ∧ p.y = s.y := by
  induction h with
  | free _ _ _ ih => exact ih
  | eat _ _ _ _ ih => exact ih
  | drop _ _ _ _ ih => exact ih
  | stop _ => exact ⟨_, _, rfl, rfl, rfl⟩
  | next _ _ _ => exact ⟨_, _, rfl, rfl, rfl⟩

theorem ne_nil (h : Slides same endX endY s t rest out) : out ≠ [] := by
  obtain ⟨p, out', rfl, -⟩ := h.head
  exact List.cons_ne_nil p out'

/-- None but the last snake can be slid any further. -/
theorem stuck (h : Slides same endX endY s t rest out) :
    ∀ p ∈ out.dropLast, ¬ p.Grows same endX endY := by
  induction h with
  | free _ _ _ ih => exact ih
  | eat _ _ _ _ ih => exact ih
  | drop _ _ _ _ ih => exact ih
  | stop hgrow => simpa using hgrow
  | @next s t follower rest out hgrow hnext ih =>
      intro p hp
      rw [List.dropLast_cons_of_ne_nil hnext.ne_nil] at hp
      rcases List.mem_cons.1 hp with rfl | hp
      · exact hgrow
      · exact ih p hp

theorem ascends (h : Slides same endX endY s t rest out) (hlink : Linked same endX endY s t rest) :
    Ascends same endX endY s.x s.y out := by
  induction h with
  | free hgrow hmeet _ ih => exact ih (hlink.free hgrow hmeet)
  | eat hgrow hmeet hused _ ih => exact ih (hlink.eat hgrow hmeet hused)
  | drop hgrow _ hused _ ih => exact ih (hlink.drop hgrow hused)
  | stop _ => exact ⟨⟨le_rfl, le_rfl⟩, hlink.matched, hlink.ascends⟩
  | next _ _ ih =>
      have hle := hlink.ascends.1
      exact ⟨⟨le_rfl, le_rfl⟩, hlink.matched, (ih hlink.next).of_le hle.1 hle.2⟩

theorem last (h : Slides same endX endY s t rest out) (hlink : Linked same endX endY s t rest) :
    ∀ p ∈ out.getLast?, p.u = endX ∧ p.v = endY := by
  induction h with
  | free hgrow hmeet _ ih => exact ih (hlink.free hgrow hmeet)
  | eat hgrow hmeet hused _ ih => exact ih (hlink.eat hgrow hmeet hused)
  | drop hgrow _ hused _ ih => exact ih (hlink.drop hgrow hused)
  | stop _ => exact hlink.last
  | next _ hnext ih =>
      obtain ⟨p, out', rfl, -⟩ := hnext.head
      exact ih hlink.next

/-- If the first snake holds a pair, all but the last still do after the slide. -/
theorem nonempty (h : Slides same endX endY s t rest out)
    (hlink : Linked same endX endY s t rest) (hs : s.x < s.u) :
    ∀ p ∈ out.dropLast, p.x < p.u := by
  induction h with
  | free hgrow hmeet _ ih => exact ih (hlink.free hgrow hmeet) (Nat.lt_succ_of_lt hs)
  | eat hgrow hmeet hused _ ih => exact ih (hlink.eat hgrow hmeet hused) (Nat.lt_succ_of_lt hs)
  | drop hgrow _ hused _ ih => exact ih (hlink.drop hgrow hused) (Nat.lt_succ_of_lt hs)
  | stop _ => simpa using hs
  | @next s t follower rest out _ hnext ih =>
      intro p hp
      rw [List.dropLast_cons_of_ne_nil hnext.ne_nil] at hp
      rcases List.mem_cons.1 hp with rfl | hp
      · exact hs
      · exact ih hlink.next hlink.lt_of_cons p hp

theorem tail_nonempty (h : Slides same endX endY s t rest out)
    (hlink : Linked same endX endY s t rest) : ∀ p ∈ out.tail.dropLast, p.x < p.u := by
  induction h with
  | free hgrow hmeet _ ih => exact ih (hlink.free hgrow hmeet)
  | eat hgrow hmeet hused _ ih => exact ih (hlink.eat hgrow hmeet hused)
  | drop hgrow _ hused _ ih => exact ih (hlink.drop hgrow hused)
  | stop _ => simp
  | next _ hnext _ => exact hnext.nonempty hlink.next hlink.lt_of_cons

/-- No pair is lost. -/
theorem matched_le (h : Slides same endX endY s t rest out)
    (hlink : Linked same endX endY s t rest) : matched (s :: t :: rest) ≤ matched out := by
  induction h with
  | @free s t rest out hgrow hmeet _ ih =>
      have := ih (hlink.free hgrow hmeet)
      simp only [matched_cons, Snake.grow] at this ⊢
      omega
  | @eat s t rest out hgrow hmeet hused _ ih =>
      have := ih (hlink.eat hgrow hmeet hused)
      have hxu := hlink.matched.x_le_u
      simp only [matched_cons, Snake.grow, Snake.shrink] at this ⊢
      omega
  | @drop s t follower rest out hgrow _ hused _ ih =>
      have := ih (hlink.drop hgrow hused)
      have hxu := hlink.matched.x_le_u
      simp only [Snake.shrink] at hused
      simp only [matched_cons, Snake.grow] at this ⊢
      omega
  | stop _ => exact le_rfl
  | @next s t follower rest out _ _ ih =>
      have := ih hlink.next
      simp only [matched_cons] at this ⊢
      omega

theorem gaps (h : Slides same endX endY s t rest out) (hslide : Slidable same endX endY s t rest) :
    out.IsChain fun p q => p.u < q.x ∨ p.v < q.y := by
  induction h with
  | free hgrow hmeet _ ih => exact ih (hslide.free hgrow hmeet)
  | eat hgrow hmeet hused _ ih => exact ih (hslide.eat hgrow hmeet hused)
  | drop hgrow _ hused _ ih => exact ih (hslide.drop hgrow hused)
  | stop hgrow => exact .cons_cons (hslide.gap hgrow) (.singleton _)
  | next hgrow hnext ih =>
      have hgap := hslide.gap hgrow
      have hchain := ih hslide.next
      obtain ⟨p, out', rfl, hx, hy⟩ := hnext.head
      rw [← hx, ← hy] at hgap
      exact .cons_cons hgap hchain

theorem settled (h : Slides same endX endY s t rest out)
    (hslide : Slidable same endX endY s t rest) : Settled same endX endY s.x s.y out where
  head := h.head
  ascends := h.ascends hslide.linked
  last := h.last hslide.linked
  stuck := h.stuck
  gaps := h.gaps hslide
  nonempty := h.tail_nonempty hslide.linked

end Slides

/-! ## The list that is slid -/

section bracket

variable {s z : Snake} {rest init snakes : List Snake}

theorem bracket_of_head (hs : s.x = 0 ∧ s.y = 0) (hlist : s :: rest = init ++ [z]) :
    bracket (s :: rest) endX endY =
      if z.u < endX ∨ z.v < endY then s :: (rest ++ [⟨endX, endX, endY, endY⟩]) else s :: rest := by
  obtain ⟨x, u, y, v⟩ := s
  obtain ⟨rfl, rfl⟩ := hs
  have hlast : (⟨0, u, 0, v⟩ :: rest : List Snake).getLast? = some z := by
    rw [hlist, List.getLast?_concat]
  simp only [bracket, hlast, List.cons_append]

theorem bracket_of_not_head (h : ∀ s rest, snakes = s :: rest → ¬ (s.x = 0 ∧ s.y = 0)) :
    bracket snakes endX endY = bracket (⟨0, 0, 0, 0⟩ :: snakes) endX endY := by
  cases snakes with
  | nil => rfl
  | cons s rest =>
      obtain ⟨x, u, y, v⟩ := s
      have hne := h _ rest rfl
      unfold bracket
      split
      · rename_i heq
        cases heq
        exact absurd ⟨rfl, rfl⟩ hne
      · rfl

/-- If the last snake does not end at the corner none of them does, and all are barred. -/
theorem barred_of_short (hasc : Ascends same endX endY x y (init ++ [z]))
    (hbarred : ∀ p ∈ init ++ [z], p.u < endX → p.Barred same endX endY)
    (hshort : z.u < endX ∨ z.v < endY) : ∀ p ∈ init ++ [z], p.Barred same endX endY := by
  intro p hp hcorner
  refine hbarred p hp ?_ hcorner
  rcases List.mem_append.1 hp with hinit | hlast
  · have hbefore := hasc.of_mem_init hinit
    obtain ⟨hz, -⟩ := hasc.of_mem (List.mem_append_right _ (List.mem_singleton_self z))
    have hxu := hz.x_le_u
    have hdiag := hz.diagonal
    omega
  · obtain rfl := List.mem_singleton.1 hlast
    omega

theorem barred_of_init (hasc : Ascends same endX endY x y (init ++ [z]))
    (hbarred : ∀ p ∈ init ++ [z], p.u < endX → p.Barred same endX endY) (hz : z.x < z.u) :
    ∀ p ∈ init, p.Barred same endX endY := by
  intro p hp
  have hbefore := hasc.of_mem_init hp
  obtain ⟨-, -, hu, -⟩ := hasc.of_mem (List.mem_append_right _ (List.mem_singleton_self z))
  exact hbarred p (List.mem_append_left _ hp) (by omega)

/-- The list that is slid, when the first corner is reached already. -/
theorem bracket_slidable (hs : s.x = 0 ∧ s.y = 0) (hasc : Ascends same endX endY 0 0 (s :: rest))
    (hlen : ∀ p ∈ rest, p.x < p.u)
    (hbarred : ∀ p ∈ s :: rest, p.u < endX → p.Barred same endX endY) :
    (bracket (s :: rest) endX endY = [s] ∧ rest = [] ∧ s.u = endX ∧ s.v = endY) ∨
      ∃ t rest', bracket (s :: rest) endX endY = s :: t :: rest' ∧
        Slidable same endX endY s t rest' ∧ matched (t :: rest') = matched rest := by
  have hsmatch := hasc.2.1
  obtain ⟨init, z, hlist⟩ := (List.eq_nil_or_concat' (s :: rest)).resolve_left (List.cons_ne_nil _ _)
  have hz : z ∈ s :: rest := by
    rw [hlist]
    exact List.mem_append_right _ (List.mem_singleton_self z)
  obtain ⟨-, -, hzu, hzv⟩ := hasc.of_mem hz
  rw [bracket_of_head hs hlist]
  split_ifs with hshort
  · have hall : ∀ p ∈ s :: rest, p.Barred same endX endY := by
      rw [hlist] at hasc hbarred ⊢
      exact barred_of_short hasc hbarred hshort
    have hcorner : Ascends same endX endY endX endY [⟨endX, endX, endY, endY⟩] :=
      ⟨⟨le_rfl, le_rfl⟩, ⟨le_rfl, Nat.add_comm _ _, fun k hk => by simp at hk⟩, le_rfl, le_rfl⟩
    have htail := hasc.2.2.append hcorner
    obtain ⟨t, rest', heq⟩ := List.exists_cons_of_ne_nil
      (show rest ++ [⟨endX, endX, endY, endY⟩] ≠ [] by simp)
    have hmatched : matched (t :: rest') = matched rest := by
      rw [← heq, matched_append]
      simp
    rw [heq] at htail ⊢
    refine .inr ⟨t, rest', rfl, ⟨hsmatch, hall s List.mem_cons_self, ?_⟩, hmatched⟩
    exact .of_ascends heq.symm htail ⟨rfl, rfl⟩ fun p hp =>
      ⟨hlen p hp, hall p (List.mem_cons_of_mem s hp)⟩
  · cases init with
    | nil =>
        obtain ⟨rfl, rfl⟩ := List.cons.inj hlist
        exact .inl ⟨rfl, rfl, by omega⟩
    | cons p init =>
        rw [List.cons_append] at hlist
        obtain ⟨rfl, rfl⟩ := List.cons.inj hlist
        have hall : ∀ p ∈ s :: init, p.Barred same endX endY :=
          barred_of_init hasc hbarred (hlen z (by simp))
        obtain ⟨t, rest', heq⟩ := List.exists_cons_of_ne_nil (show init ++ [z] ≠ [] by simp)
        have htail := hasc.2.2
        rw [heq] at htail ⊢
        refine .inr ⟨t, rest', rfl, ⟨hsmatch, hall s List.mem_cons_self, ?_⟩, rfl⟩
        exact .of_ascends heq.symm htail (by omega) fun p hp =>
          ⟨hlen p (List.mem_append_left _ hp), hall p (List.mem_cons_of_mem s hp)⟩

end bracket

/-- Snakes that begin at the first corner settle when they are slid. -/
theorem bias_ensures_of_head (hc : c.Decides valid fails same) {s : Snake} {rest : List Snake}
    (hs : s.x = 0 ∧ s.y = 0) (hasc : Ascends same c.oldCount c.newCount 0 0 (s :: rest))
    (hlen : ∀ p ∈ rest, p.x < p.u)
    (hbarred : ∀ p ∈ s :: rest, p.u < c.oldCount → p.Barred same c.oldCount c.newCount) :
    Ensures valid fails (c.bias (bracket (s :: rest) c.oldCount c.newCount)) fun out =>
      Settled same c.oldCount c.newCount 0 0 out ∧ matched (s :: rest) ≤ matched out := by
  obtain ⟨hlist, rfl, hcorner⟩ | ⟨t, rest', hlist, hslide, hmatched⟩ :=
    bracket_slidable hs hasc hlen hbarred
  · rw [hlist]
    have hsettled := Settled.singleton hasc.2.1 hcorner
    rw [hs.1, hs.2] at hsettled
    exact .pure ⟨hsettled, le_rfl⟩
  · rw [hlist]
    apply (slide_ensures hc.equal s t rest').imp
    intro out h
    have hsettled := h.settled hslide
    rw [hs.1, hs.2] at hsettled
    have hle := h.matched_le hslide.linked
    rw [matched_cons, hmatched] at hle
    rw [matched_cons]
    exact ⟨hsettled, hle⟩

/-- The snakes of a search settle when they are slid. -/
theorem bias_ensures (hc : c.Decides valid fails same) {snakes : List Snake}
    (h : Searched c same bound ⟨0, 0, c.oldCount, c.newCount⟩ snakes) :
    Ensures valid fails (c.bias (bracket snakes c.oldCount c.newCount)) fun out =>
      Settled same c.oldCount c.newCount 0 0 out ∧ matched snakes ≤ matched out := by
  have hasc := h.ascends ⟨Nat.zero_le _, Nat.zero_le _⟩
  have hbarred := h.barred hc
  by_cases hhead : ∃ s rest, snakes = s :: rest ∧ s.x = 0 ∧ s.y = 0
  · obtain ⟨s, rest, rfl, hs⟩ := hhead
    exact bias_ensures_of_head hc hs hasc
      (fun p hp => h.nonempty p (List.mem_cons_of_mem s hp)) hbarred
  · have hcorner : (⟨0, 0, 0, 0⟩ : Snake).Matches same :=
      ⟨le_rfl, rfl, fun k hk => absurd hk (Nat.not_lt_zero k)⟩
    have hbarred' : ∀ p ∈ ⟨0, 0, 0, 0⟩ :: snakes,
        p.u < c.oldCount → p.Barred same c.oldCount c.newCount := by
      intro p hp hlt
      rcases List.mem_cons.1 hp with rfl | hp
      · intro hdiag
        -- the first pair is unequal, or else a snake would begin with it
        refine Snake.Barred.of_stop hlt (eq_false_of_ne_true fun hsame => hhead ?_) hdiag
        simp only at hlt hdiag
        exact h.head_of_same hc ⟨hlt, by simp only; omega⟩ le_rfl le_rfl hsame
      · exact hbarred p hp hlt
    rw [bracket_of_not_head fun s rest heq hs => hhead ⟨s, rest, heq, hs⟩]
    refine (bias_ensures_of_head hc ⟨rfl, rfl⟩ ⟨⟨le_rfl, le_rfl⟩, hcorner, hasc⟩ h.nonempty
      hbarred').imp fun out hout => ⟨hout.1, ?_⟩
    have hle := hout.2
    rwa [matched_cons, Nat.sub_self, Nat.zero_add] at hle

end TokenDiff
