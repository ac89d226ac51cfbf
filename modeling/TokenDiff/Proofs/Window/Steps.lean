import TokenDiff.Proofs.Window.Operations

/-!
# Steps of a window

An operation on a window is made of steps: its cursor moves within the buffer, the buffer is filled anew, the
source is opened once more. Either they all succeed (`Window.Reaches`), or one of them fails and is the last
(`Window.Refuses`); a result that comes about in this way is one of steps (`Window.OfSteps`). Each operation has
such results (`WindowOp.steps`), and so has each operation on two windows, of which one may fail
(`PairOp.steps`). Some operations have no step that can fail but their first (`WindowOp.refuses_of_isShort`).
-/

namespace TokenDiff

namespace Window

/-! ## Steps of one window -/

/-- The window comes there by steps that succeed: its cursor moves within the buffer, the buffer is filled, or
the source is opened once more. -/
inductive Reaches (w : Window) : Window → Prop
  | refl : Reaches w w
  | move {v : Window} (h : Reaches w v) {p : Nat} (hp : p ≤ v.filled) : Reaches w { v with position := p }
  | fill {v next : Window} {n : Nat} (h : Reaches w v) (hfill : fill v = .ok n next) : Reaches w next
  | rewind {v next : Window} (h : Reaches w v) (hrewind : rewind v = .ok () next) : Reaches w next

/-- A step fails: the buffer cannot be filled, or the source refuses to be opened. -/
inductive Refuses (w : Window) (fault : Fault) (next : Window) : Prop
  | fill (h : Window.fill w = .error fault next)
  | rewind (h : Window.rewind w = .error fault next)

/-- A result that comes about in steps from the window: they all succeeded, or the last of them failed. -/
def OfSteps {α : Type} (w : Window) (post : α → Window → Prop) : EStateM.Result Fault Window α → Prop
  | .ok a next => w.Reaches next ∧ post a next
  | .error fault next => ∃ v, w.Reaches v ∧ v.Refuses fault next

def Steps {α : Type} (w : Window) (x : WindowM α) (post : α → Window → Prop) : Prop :=
  w.OfSteps post (x w)

theorem Reaches.trans {u v w : Window} (huv : u.Reaches v) (hvw : v.Reaches w) : u.Reaches w := by
  induction hvw with
  | refl => exact huv
  | move _ hp ih => exact ih.move hp
  | fill _ hfill ih => exact ih.fill hfill
  | rewind _ hrewind ih => exact ih.rewind hrewind

theorem OfSteps.of_reaches {α : Type} {v w : Window} {post : α → Window → Prop}
    {result : EStateM.Result Fault Window α} (h : v.OfSteps post result) (hreaches : w.Reaches v) :
    w.OfSteps post result := by
  cases result with
  | ok a next => exact ⟨hreaches.trans h.1, h.2⟩
  | error fault next =>
      obtain ⟨u, hu, hrefuses⟩ := h
      exact ⟨u, hreaches.trans hu, hrefuses⟩

namespace Steps

variable {α β : Type} {w : Window} {mid : α → Window → Prop} {post : β → Window → Prop}

theorem pure {a : α} (h : mid a w) : Steps w (Pure.pure a) mid := ⟨.refl, h⟩

theorem bind {x : WindowM α} {f : α → WindowM β} (hx : Steps w x mid)
    (hf : ∀ a v, mid a v → Steps v (f a) post) : Steps w (x >>= f) post := by
  unfold Steps at hx ⊢
  cases hres : x w with
  | error fault next =>
      rw [hres] at hx
      rw [bind_eq_of_error hres]
      exact hx
  | ok a v =>
      rw [hres] at hx
      rw [bind_eq_of_ok hres]
      exact (hf a v hx.2).of_reaches hx.1

theorem returns {x : WindowM α} (hx : Steps w x mid) (f : α → β) :
    Steps w (x >>= fun a => Pure.pure (f a)) fun _ _ => True :=
  hx.bind fun _ _ _ => pure trivial

theorem bind_get {f : Window → WindowM β} (h : Steps w (f w) post) : Steps w (get >>= f) post := h

end Steps

theorem steps_fill (w : Window) : Steps w fill fun n v => n = 0 ∨ v.available = n := by
  unfold Steps
  cases hfill : fill w with
  | error fault next => exact ⟨w, .refl, .fill hfill⟩
  | ok n next =>
      refine ⟨Reaches.refl.fill hfill, ?_⟩
      unfold fill at hfill
      split at hfill <;> cases hfill
      · exact .inl rfl
      · exact .inr rfl
      · exact .inl rfl

theorem steps_rewind (w : Window) : Steps w rewind fun _ _ => True := by
  unfold Steps
  cases hrewind : rewind w with
  | error fault next => exact ⟨w, .refl, .rewind hrewind⟩
  | ok _ next => exact ⟨Reaches.refl.rewind hrewind, trivial⟩

theorem steps_skip {w : Window} {n : Nat} (hn : 0 < n) (hle : n ≤ w.available) :
    Steps w (skip n) fun _ _ => True := by
  rw [available] at hle
  exact ⟨Reaches.refl.move (by omega), trivial⟩

theorem steps_ready (w : Window) : Steps w ready fun n v => n = 0 ∨ v.available = n := by
  refine .bind_get ?_
  split
  · exact steps_fill w
  · exact .pure (.inr rfl)

theorem steps_peek? (w : Window) : Steps w peek? fun b? v => b? ≠ none → 0 < v.available := by
  refine (steps_ready w).bind fun n v hv => ?_
  split
  · exact .pure fun h => absurd rfl h
  · exact .bind_get (.pure fun _ => by omega)

theorem steps_next? (w : Window) : Steps w next? fun _ _ => True := by
  refine (steps_peek? w).bind fun b? v hv => ?_
  cases b? with
  | none => exact .pure trivial
  | some b => exact (steps_skip Nat.one_pos (hv (Option.some_ne_none b))).bind fun _ _ _ => .pure trivial

theorem steps_seekForward (target : Nat) (w : Window) : Steps w (seekForward target) fun _ _ => True := by
  unfold Steps
  fun_induction seekForward target w with
  | case1 w hlt next hfill => exact ⟨(Reaches.refl.fill hfill).move (Nat.le_refl _), trivial⟩
  | case2 w hlt n next hfill hmoved ih => exact ih.of_reaches (Reaches.refl.fill hfill)
  | case3 w hlt fault next hfill => exact ⟨w, .refl, .fill hfill⟩
  | case4 w hle =>
      refine ⟨Reaches.refl.move ?_, trivial⟩
      rw [base]
      omega

theorem steps_seek (target : Nat) (w : Window) : Steps w (seek target) fun _ _ => True := by
  refine .bind_get ?_
  split
  · refine (steps_rewind w).bind fun _ v _ => (steps_fill v).bind fun n u _ => ?_
    split
    · exact steps_seekForward target u
    · exact .pure trivial
  · exact steps_seekForward target w

theorem steps_take (n : Nat) (w : Window) : Steps w (take n) fun _ _ => True := by
  induction n using Nat.strong_induction_on generalizing w with
  | _ n ih =>
      rw [take]
      split
      · exact .pure trivial
      · refine (steps_ready w).bind fun count v hv => ?_
        split
        · exact .pure trivial
        · refine .bind_get ((steps_skip (by omega) (by omega)).bind fun _ u _ => ?_)
          exact (ih _ (by omega) u).returns _

theorem steps_takeCollapsed (room length : Nat) (w : Window) :
    Steps w (takeCollapsed room length) fun _ _ => True := by
  induction room generalizing length w with
  | zero =>
      rw [takeCollapsed]
      exact .pure trivial
  | succ room ih =>
      have hrest (b : UInt8) (length : Nat) (w : Window) :
          Steps w (do return b :: (← takeCollapsed room length)) fun _ _ => True :=
        (ih length w).returns _
      cases length with
      | zero => exact .pure trivial
      | succ length =>
          rw [takeCollapsed]
          refine (steps_next? w).bind fun b? v _ => ?_
          cases b? with
          | none => exact .pure trivial
          | some b =>
              dsimp only
              split
              · refine (steps_peek? v).bind fun c? u _ => ?_
                split
                · exact ((steps_next? u).returns _).bind fun _ t _ => hrest 10 _ t
                · exact hrest b length u
              · exact hrest b length v

theorem steps_copy (room length : Nat) (type : LineType) (w : Window) :
    Steps w (copy room length type) fun _ _ => True := by
  cases type with
  | raw => exact steps_take _ w
  | cr => exact (steps_take _ w).returns _
  | crLf => exact steps_takeCollapsed room length w
  | lfCrLf => exact steps_takeCollapsed room length w

end Window

theorem WindowOp.steps (op : WindowOp) (w : Window) : Window.Steps w op.run fun _ _ => True := by
  cases op with
  | rewind => exact (Window.steps_rewind w).returns _
  | seek target => exact (Window.steps_seek target w).returns _
  | atEnd => exact ((Window.steps_ready w).returns _).returns _
  | peek? => exact (Window.steps_peek? w).returns _
  | next? => exact (Window.steps_next? w).returns _
  | next => exact ((Window.steps_next? w).returns _).returns _
  | advance => exact ((Window.steps_next? w).returns _).returns _
  | copy room length type => exact (Window.steps_copy room length type w).returns _

/-- The operation takes one step that can fail, and that is its first. -/
def WindowOp.isShort : WindowOp → Bool
  | .seek _ | .copy .. => false
  | _ => true

namespace Window

theorem eq_error_of_bind {α β : Type} {x : WindowM α} {f : α → WindowM β} {w next : Window} {fault : Fault}
    (hf : ∀ a v, ∃ b u, f a v = .ok b u) (h : (x >>= f) w = .error fault next) : x w = .error fault next := by
  cases hres : x w with
  | error fault' next' =>
      rw [bind_eq_of_error hres] at h
      obtain ⟨rfl, rfl⟩ := EStateM.Result.error.inj h
      rfl
  | ok a v =>
      obtain ⟨b, u, hout⟩ := hf a v
      rw [bind_eq_of_ok hres, hout] at h
      cases h

theorem refuses_of_ready {w next : Window} {fault : Fault} (h : ready w = .error fault next) :
    w.Refuses fault next := by
  change (if w.available = 0 then fill else return w.available : WindowM Nat) w = _ at h
  split at h
  · exact .fill h
  · cases h

theorem refuses_of_peek? {w next : Window} {fault : Fault} (h : peek? w = .error fault next) :
    w.Refuses fault next := by
  refine refuses_of_ready (eq_error_of_bind (fun count v => ?_) h)
  split
  · exact ⟨_, _, rfl⟩
  · exact ⟨_, _, rfl⟩

theorem refuses_of_next? {w next : Window} {fault : Fault} (h : next? w = .error fault next) :
    w.Refuses fault next := by
  refine refuses_of_peek? (eq_error_of_bind (fun b? v => ?_) h)
  cases b? with
  | none => exact ⟨_, _, rfl⟩
  | some b => exact ⟨_, _, rfl⟩

end Window

theorem WindowOp.refuses_of_isShort {op : WindowOp} (hshort : op.isShort = true) {w next : Window}
    {fault : Fault} (h : op.run w = .error fault next) : w.Refuses fault next := by
  have hpure {α β : Type} (f : α → β) (a : α) (v : Window) :
      ∃ b u, (pure (f a) : WindowM β) v = .ok b u := ⟨_, _, rfl⟩
  cases op with
  | rewind => exact .rewind (Window.eq_error_of_bind (hpure _) h)
  | seek target => cases hshort
  | atEnd =>
      exact Window.refuses_of_ready
        (Window.eq_error_of_bind (hpure _) (Window.eq_error_of_bind (hpure _) h))
  | peek? => exact Window.refuses_of_peek? (Window.eq_error_of_bind (hpure _) h)
  | next? => exact Window.refuses_of_next? (Window.eq_error_of_bind (hpure _) h)
  | next =>
      exact Window.refuses_of_next?
        (Window.eq_error_of_bind (hpure _) (Window.eq_error_of_bind (hpure _) h))
  | advance =>
      exact Window.refuses_of_next?
        (Window.eq_error_of_bind (hpure _) (Window.eq_error_of_bind (hpure _) h))
  | copy room length type => cases hshort

/-! ## Steps of two windows -/

/-- The two windows come there by steps that succeed, and the last step of one of them fails if there is a
fault: `v` is the window before that step. -/
inductive Fails (s : Window × Window) (fault : Fault) (next : Window × Window) : Window → Window → Prop
  | left {v : Window} (h : s.1.Reaches v) (hrefuses : v.Refuses fault next.1) (hother : s.2.Reaches next.2) :
      Fails s fault next v next.1
  | right {v : Window} (h : s.2.Reaches v) (hrefuses : v.Refuses fault next.2) (hother : s.1.Reaches next.1) :
      Fails s fault next v next.2

theorem Fails.of_reaches {s t next : Window × Window} {fault : Fault} {v u : Window}
    (hleft : s.1.Reaches t.1) (hright : s.2.Reaches t.2) (h : Fails t fault next v u) :
    Fails s fault next v u := by
  cases h with
  | left h hrefuses hother => exact .left (hleft.trans h) hrefuses (hright.trans hother)
  | right h hrefuses hother => exact .right (hright.trans h) hrefuses (hleft.trans hother)

def PairOfSteps {α : Type} (s : Window × Window) : EStateM.Result Fault (Window × Window) α → Prop
  | .ok _ next => s.1.Reaches next.1 ∧ s.2.Reaches next.2
  | .error fault next => ∃ v u, Fails s fault next v u

def PairSteps {α : Type} (s : Window × Window) (x : PairM α) : Prop := PairOfSteps s (x s)

theorem PairOfSteps.of_reaches {α : Type} {s t : Window × Window}
    {result : EStateM.Result Fault (Window × Window) α} (h : PairOfSteps t result)
    (hleft : s.1.Reaches t.1) (hright : s.2.Reaches t.2) : PairOfSteps s result := by
  cases result with
  | ok a next => exact ⟨hleft.trans h.1, hright.trans h.2⟩
  | error fault next =>
      obtain ⟨v, u, hfails⟩ := h
      exact ⟨v, u, hfails.of_reaches hleft hright⟩

namespace PairSteps

variable {α : Type} {s : Window × Window}

theorem onLeft {x : WindowM α} {post : α → Window → Prop} (hx : Window.Steps s.1 x post) :
    PairSteps s (PairM.onLeft x) := by
  obtain ⟨l, r⟩ := s
  unfold Window.Steps at hx
  unfold PairSteps PairM.onLeft
  dsimp only at hx ⊢
  cases hres : x l with
  | ok a next =>
      rw [hres] at hx
      exact ⟨hx.1, .refl⟩
  | error fault next =>
      rw [hres] at hx
      obtain ⟨v, hv, hrefuses⟩ := hx
      exact ⟨v, next, .left hv hrefuses .refl⟩

theorem onRight {x : WindowM α} {post : α → Window → Prop} (hx : Window.Steps s.2 x post) :
    PairSteps s (PairM.onRight x) := by
  obtain ⟨l, r⟩ := s
  unfold Window.Steps at hx
  unfold PairSteps PairM.onRight
  dsimp only at hx ⊢
  cases hres : x r with
  | ok a next =>
      rw [hres] at hx
      exact ⟨.refl, hx.1⟩
  | error fault next =>
      rw [hres] at hx
      obtain ⟨v, hv, hrefuses⟩ := hx
      exact ⟨v, next, .right hv hrefuses .refl⟩

theorem exchanged {x : PairM α} (hx : PairSteps s.swap x) : PairSteps s (PairM.exchanged x) := by
  obtain ⟨l, r⟩ := s
  unfold PairSteps at hx
  unfold PairSteps PairM.exchanged
  rw [Prod.swap_prod_mk] at hx
  dsimp only
  cases hres : x (r, l) with
  | ok a next =>
      rw [hres] at hx
      exact ⟨hx.2, hx.1⟩
  | error fault next =>
      rw [hres] at hx
      obtain ⟨v, u, hfails⟩ := hx
      cases hfails with
      | left h hrefuses hother => exact ⟨v, _, .right h hrefuses hother⟩
      | right h hrefuses hother => exact ⟨v, _, .left h hrefuses hother⟩

theorem returns {β : Type} {x : PairM α} (hx : PairSteps s x) (f : α → β) :
    PairSteps s (x >>= fun a => pure (f a)) := by
  unfold PairSteps at hx ⊢
  cases hres : x s with
  | ok a next =>
      rw [hres] at hx
      rw [bind_eq_of_ok hres]
      exact hx
  | error fault next =>
      rw [hres] at hx
      rw [bind_eq_of_error hres]
      exact hx

end PairSteps

namespace Window

variable {l r l₁ r₁ : Window} {n i : Nat} {fault : Fault}

theorem compare_of_left_error (hl : ready l = .error fault l₁) (hn : n ≠ 0) :
    compare n (l, r) = .error fault (l₁, r) := by
  rw [compare, if_neg hn]
  change EStateM.bind (PairM.onLeft ready) _ (l, r) = _
  rw [EStateM.bind, PairM.onLeft, hl]

theorem compare_of_right_error (hl : ready l = .ok i l₁) (hr : ready r = .error fault r₁) (hn : n ≠ 0) :
    compare n (l, r) = .error fault (l₁, r₁) := by
  rw [compare, if_neg hn]
  change EStateM.bind (PairM.onLeft ready) _ (l, r) = _
  rw [EStateM.bind, PairM.onLeft, hl]
  change EStateM.bind (PairM.onRight ready) _ (l₁, r) = _
  rw [EStateM.bind, PairM.onRight, hr]

theorem mismatch_lt {left right : Array UInt8} {i j n k : Nat} (h : mismatch left right i j n = some k) :
    k < n := by
  induction n generalizing i j k with
  | zero => cases h
  | succ n ih =>
      rw [mismatch] at h
      split at h
      · obtain ⟨k', hk', rfl⟩ := Option.map_eq_some_iff.1 h
        exact Nat.succ_lt_succ (ih hk')
      · obtain rfl := Option.some.inj h
        exact Nat.succ_pos n

/-- The steps of a comparison are those of its two windows. -/
theorem pairSteps_compare (n : Nat) (l r : Window) : PairSteps (l, r) (compare n) := by
  induction n using Nat.strong_induction_on generalizing l r with
  | _ n ih =>
      unfold PairSteps
      by_cases hn : n = 0
      · rw [compare, if_pos hn]
        exact ⟨.refl, .refl⟩
      have hl := steps_ready l
      have hr := steps_ready r
      unfold Steps at hl hr
      cases hready : ready l with
      | error fault l₁ =>
          rw [compare_of_left_error hready hn]
          exact ⟨l, _, .left .refl (refuses_of_ready hready) .refl⟩
      | ok i l₁ =>
          rw [hready] at hl
          cases hready' : ready r with
          | error fault r₁ =>
              rw [compare_of_right_error hready hready' hn]
              exact ⟨r, _, .right .refl (refuses_of_ready hready') hl.1⟩
          | ok j r₁ =>
              rw [hready'] at hr
              obtain ⟨hreaches, havailable⟩ := hl
              obtain ⟨hreaches', havailable'⟩ := hr
              by_cases hend : i = 0 ∨ j = 0
              · rw [compare_of_end hready hready' hn hend]
                exact ⟨hreaches, hreaches'⟩
              · rw [compare_of_ready hready hready' hn hend]
                obtain ⟨span, hspan⟩ : ∃ span, span = min (min i j) n := ⟨_, rfl⟩
                rw [← hspan]
                have hmove {k : Nat} (hk : k ≤ span) : l.Reaches { l₁ with position := l₁.position + k } :=
                  hreaches.move (by rw [available] at havailable; omega)
                have hmove' {k : Nat} (hk : k ≤ span) : r.Reaches { r₁ with position := r₁.position + k } :=
                  hreaches'.move (by rw [available] at havailable'; omega)
                cases hfirst : mismatch l₁.buffer r₁.buffer l₁.position r₁.position span with
                | some k => exact ⟨hmove (mismatch_lt hfirst), hmove' (mismatch_lt hfirst)⟩
                | none =>
                    have hrest := ih (n - span) (by omega) { l₁ with position := l₁.position + span }
                      { r₁ with position := r₁.position + span }
                    exact hrest.of_reaches (hmove (Nat.le_refl _)) (hmove' (Nat.le_refl _))

end Window

theorem PairOp.steps (op : PairOp) (s : Window × Window) : PairSteps s op.run := by
  cases op with
  | left op => exact .onLeft (op.steps s.1)
  | right op => exact .onRight (op.steps s.2)
  | compareLeft n => exact (Window.pairSteps_compare n s.1 s.2).returns _
  | compareRight n => exact (PairSteps.exchanged (Window.pairSteps_compare n s.2 s.1)).returns _

end TokenDiff
