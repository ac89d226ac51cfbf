import TokenDiff.Proofs.Edit.Ascending
import TokenDiff.Proofs.Edit.Middle
import TokenDiff.Proofs.Outcome

/-!
# Dividing the edit graph

`Searched c same bound r snakes` is a derivation of what a search of a rectangle yields, one step for each
rectangle it looks at: nothing for a rectangle without tokens, and for any other what its parts before and
after a snake yield, with the runs of equal pairs of that snake between them. `search_ensures` says that
every search that comes to an end has such a derivation, and that a search for which at least one round is
allowed cannot stall, because the snake of a rectangle never is a whole corner of it (`Rect.Divided`).
Everything else is said of derivations, by induction.
-/

namespace TokenDiff

variable {σ : Type} {c : Comparison σ} {valid : σ → Prop} {fails : Fault → Prop}
  {same : Nat → Nat → Bool} {bound : Nat}

/-- Asked in a valid state about a pair of tokens, a comparison answers as `same` says. The faults it stops
with are among those that `fails` names. -/
def Comparison.Judges (c : Comparison σ) (valid : σ → Prop) (fails : Fault → Prop)
    (same : Nat → Nat → Bool) : Prop :=
  ∀ i j, i < c.oldCount → j < c.newCount → Ensures valid fails (c.equal i j) (· = same i j)

/-- A comparison answers as `same` says wherever it answers, and equal tokens may match. It is asked in
valid states, and the faults it stops with are among those that `fails` names. -/
structure Comparison.Decides (c : Comparison σ) (valid : σ → Prop) (fails : Fault → Prop)
    (same : Nat → Nat → Bool) : Prop where
  equal : ∀ i j, i < c.oldCount → j < c.newCount →
    Ensures valid fails (c.equal i j) (· = same i j)
  likely : ∀ i j, i < c.oldCount → j < c.newCount → same i j = true → c.likely i j = true

/-! ## The snake of a rectangle -/

/-- What a rectangle is divided at when at most `bound` rounds are allowed for. -/
structure Rect.Divided (r : Rect) (likely : Nat → Nat → Bool) (bound : Nat) (s : Snake) : Prop where
  left : r.startX ≤ s.x ∧ r.startY ≤ s.y
  right : s.u ≤ r.endX ∧ s.v ≤ r.endY
  matched : s.Matches likely
  cheapest : (r.before s).lcs likely + (s.u - s.x) + (r.after s).lcs likely = r.lcs likely ∨
    2 * bound + 2 * r.lcs likely < (r.endX - r.startX) + (r.endY - r.startY)
  shrinks : 0 < bound → (r.before s).extent < r.extent ∧ (r.after s).extent < r.extent

/-- Only what is said of the pairs of the rectangle matters. -/
theorem Rect.Divided.congr {r : Rect} {likely : Nat → Nat → Bool} {s : Snake}
    (h : r.Divided likely bound s)
    (hsame : ∀ i j, i < r.endX → j < r.endY → likely i j = same i j) :
    r.Divided same bound s := by
  obtain ⟨hxu, hdiag, hequal⟩ := h.matched
  have hright := h.right
  have hbefore : (r.before s).lcs likely = (r.before s).lcs same := by
    refine Rect.lcs_congr fun i j hi hj => hsame i j ?_ ?_
    · simp only [Rect.before] at hi
      omega
    · simp only [Rect.before] at hj
      omega
  have hafter : (r.after s).lcs likely = (r.after s).lcs same := Rect.lcs_congr hsame
  have hwhole : r.lcs likely = r.lcs same := Rect.lcs_congr hsame
  constructor
  case left => exact h.left
  case right => exact h.right
  case matched =>
    refine ⟨hxu, hdiag, fun k hk => ?_⟩
    rw [← hsame _ _ (by omega) (by omega)]
    exact hequal k hk
  case cheapest =>
    rw [← hbefore, ← hafter, ← hwhole]
    exact h.cheapest
  case shrinks => exact h.shrinks

/-- The cost of a path through a run, told by longest common subsequences. -/
theorem Board.lcs_of_cheapest {b : Board} {x u y v : Nat} (hxu : x ≤ u) (hu : u ≤ b.width)
    (hv : v ≤ b.height) (hdiag : u + y = v + x)
    (h : b.cost x y + b.turn.cost (b.width - u) (b.height - v) = b.cost b.width b.height) :
    TokenDiff.lcs b.likely x y + (u - x) + Rect.lcs b.likely ⟨u, v, b.width, b.height⟩ =
      TokenDiff.lcs b.likely b.width b.height := by
  have hturn : TokenDiff.lcs b.turn.likely (b.width - u) (b.height - v) =
      Rect.lcs b.likely ⟨u, v, b.width, b.height⟩ := Rect.lcs_turn hu hv
  have htotal := b.cost_add_lcs b.width b.height
  have hbefore := b.cost_add_lcs x y
  have hafter := b.turn.cost_add_lcs (b.width - u) (b.height - v)
  omega

theorem Rect.extent_lt {r r' : Rect} (h : r.isOpen)
    (hlt : (r'.endX - r'.startX) + (r'.endY - r'.startY) <
      (r.endX - r.startX) + (r.endY - r.startY)) : r'.extent < r.extent := by
  unfold extent
  rw [if_pos h]
  split_ifs
  · exact hlt
  · omega

theorem Rect.place_natCast (r : Rect) (x u y v : Nat) :
    r.place ⟨x, u, y, v⟩ =
      ⟨r.startX + x, r.startX + u, r.startY + y, r.startY + v⟩ := by
  simp only [Rect.place, Snake.mk.injEq]
  omega

section board

variable {r : Rect} {h : r.isOpen} {x u y v : Nat}

/-- The pairs of a run on the board are pairs of the sequences. -/
theorem Board.OnBoard.matches (hrun : (c.board r h).OnBoard ⟨x, u, y, v⟩) :
    Snake.Matches c.likely ⟨r.startX + x, r.startX + u, r.startY + y, r.startY + v⟩ := by
  have hxu := hrun.x_le_u
  have hdiag := hrun.diagonal
  simp only at hxu hdiag
  refine ⟨by simp only; omega, by simp only; omega, fun k hk => ?_⟩
  simp only at hk ⊢
  have hcol : (x : Int) + k = ((x + k : Nat) : Int) := by
    push_cast
    ring
  have hrow : (y : Int) + (x + k - x) = ((y + k : Nat) : Int) := by
    push_cast
    ring
  have hpair := hrun.matched (x + k) (by simp only; omega) (by simp only; omega)
  rw [hrow, hcol, Board.pair_natCast] at hpair
  rw [Nat.add_assoc, Nat.add_assoc]
  exact hpair

/-- A run on a cheapest path of the board divides a longest common subsequence of the rectangle. -/
theorem Board.Cheapest.lcs_eq (hrun : (c.board r h).OnBoard ⟨x, u, y, v⟩)
    (hcheap : (c.board r h).Cheapest ⟨x, u, y, v⟩) :
    let s : Snake := ⟨r.startX + x, r.startX + u, r.startY + y, r.startY + v⟩
    (r.before s).lcs c.likely + (s.u - s.x) + (r.after s).lcs c.likely = r.lcs c.likely := by
  have hxu := hrun.x_le_u
  have hu := hrun.u_le
  have hv := hrun.v_le
  have hdiag := hrun.diagonal
  simp only at hxu hu hv hdiag
  have hpath := Board.lcs_of_cheapest (b := c.board r h) (x := x) (u := u) (y := y) (v := v)
    (by omega) (by omega) (by omega) (by omega) hcheap
  have hafter : Rect.lcs c.likely ⟨r.startX + u, r.startY + v, r.endX, r.endY⟩ =
      Rect.lcs (c.board r h).likely ⟨u, v, (c.board r h).width, (c.board r h).height⟩ := by
    simp only [Rect.lcs, Comparison.board, Nat.add_assoc, Nat.sub_sub]
  simp only [Rect.before, Rect.after]
  rw [hafter, Rect.lcs]
  simp only [Nat.add_sub_cancel_left, Nat.add_sub_add_left]
  exact hpath

end board

/-- The snake of a rectangle divides it. -/
theorem Comparison.divide_divided (c : Comparison σ) (r : Rect) (h : r.isOpen)
    (f : Frontiers bound) : r.Divided c.likely bound (c.divide r h f).1 := by
  have hdiv := (c.board r h).middle_divides f
  have hs : (c.divide r h f).1 = r.place ((c.board r h).middle f).1 := rfl
  rw [hs]
  generalize ((c.board r h).middle f).1 = run at hdiv
  obtain ⟨x, u, y, v, rfl⟩ := hdiv.toOnBoard.exists_natCast
  have hwidth : (c.board r h).width = r.endX - r.startX := rfl
  have hheight : (c.board r h).height = r.endY - r.startY := rfl
  have hopen := h
  have hxu := hdiv.x_le_u
  have hu := hdiv.u_le
  have hv := hdiv.v_le
  simp only [Rect.isOpen] at hopen
  simp only [hwidth, hheight] at hxu hu hv
  rw [Rect.place_natCast]
  constructor
  case left => exact ⟨Nat.le_add_right _ _, Nat.le_add_right _ _⟩
  case right =>
    simp only
    omega
  case matched => exact hdiv.toOnBoard.matches
  case cheapest =>
    rcases hdiv.cheapest with hcheap | hexpensive
    · exact .inl (hcheap.lcs_eq hdiv.toOnBoard)
    · right
      have hcost := (c.board r h).cost_add_lcs (c.board r h).width (c.board r h).height
      have hlcs : r.lcs c.likely =
          TokenDiff.lcs (c.board r h).likely (c.board r h).width (c.board r h).height := rfl
      omega
  case shrinks =>
    intro hbound
    have hbefore := hdiv.before_lt hbound
    have hafter := hdiv.after_pos hbound
    simp only [hwidth, hheight] at hbefore hafter
    refine ⟨Rect.extent_lt h ?_, Rect.extent_lt h ?_⟩
    · simp only [Rect.before]
      omega
    · simp only [Rect.after]
      omega

/-- Tokens that may match at the first corner begin the snake, which goes on as far as tokens may
match. -/
theorem Comparison.divide_of_likely (c : Comparison σ) (r : Rect) (h : r.isOpen) (f : Frontiers bound)
    (hlikely : c.likely r.startX r.startY = true) :
    let s := (c.divide r h f).1
    (s.x = r.startX ∧ s.y = r.startY) ∧ r.startX < s.u ∧
      (s.u < r.endX → s.v < r.endY → c.likely s.u s.v = false) := by
  have hs : (c.divide r h f).1 = r.place ((c.board r h).middle f).1 := rfl
  have hlikely' : (c.board r h).likely 0 0 = true := hlikely
  rw [hs, (c.board r h).middle_of_likely f hlikely']
  have hpos := Board.advance_origin_pos_iff.2 hlikely'
  have hstop := ((c.board r h).advance_spec 0 0).2.2
  obtain ⟨u, hu⟩ := Int.eq_ofNat_of_zero_le hpos.le
  rw [hu] at hpos hstop ⊢
  have hplace : r.place ⟨0, u, 0, u⟩ = ⟨r.startX, r.startX + u, r.startY, r.startY + u⟩ :=
    r.place_natCast 0 u 0 u
  rw [hplace]
  refine ⟨⟨rfl, rfl⟩, by simp only; omega, fun hlt hlt' => ?_⟩
  have hrow : (0 : Int) + (u - 0) = u := by ring
  rw [hrow, Board.pair_natCast] at hstop
  refine eq_false_of_ne_true fun htrue => hstop ⟨?_, ?_, htrue⟩
  · have hw : (c.board r h).width = r.endX - r.startX := rfl
    simp only at hlt
    omega
  · have hh : (c.board r h).height = r.endY - r.startY := rfl
    simp only at hlt'
    omega

/-- Tokens that may match at the last corner end the snake if those at the first corner do not match, and
it goes back as far as tokens may match. -/
theorem Comparison.divide_of_likely_end (c : Comparison σ) (r : Rect) (h : r.isOpen)
    (f : Frontiers bound) (hstart : c.likely r.startX r.startY = false)
    (hend : c.likely (r.endX - 1) (r.endY - 1) = true) :
    let s := (c.divide r h f).1
    (s.u = r.endX ∧ s.v = r.endY) ∧ s.x < r.endX ∧
      (r.startX < s.x → r.startY < s.y → c.likely (s.x - 1) (s.y - 1) = false) := by
  have hs : (c.divide r h f).1 = r.place ((c.board r h).middle f).1 := rfl
  have hw : (c.board r h).width = r.endX - r.startX := rfl
  have hh : (c.board r h).height = r.endY - r.startY := rfl
  have hdelta : (c.board r h).delta = (c.board r h).width - (c.board r h).height := rfl
  have hopen := h
  simp only [Rect.isOpen] at hopen
  have hend' : (c.board r h).turn.likely 0 0 = true := by
    simp only [Board.turn, Comparison.board]
    rw [← hend]
    congr 1 <;> omega
  rw [hs, (c.board r h).middle_of_turn_likely f hstart hend']
  have hlt : (c.board r h).retreat (c.board r h).width (c.board r h).height <
      (c.board r h).width := by
    have := Board.advance_origin_pos_iff.2 hend'
    rw [Board.retreat_corner]
    omega
  obtain ⟨-, hpairs, hstop⟩ :=
    (c.board r h).retreat_spec (c.board r h).width (c.board r h).height
  have hge := hpairs _ le_rfl hlt
  obtain ⟨x, hx⟩ := Int.eq_ofNat_of_zero_le hge.1
  obtain ⟨y, hy⟩ := Int.eq_ofNat_of_zero_le hge.2.1
  rw [hy, hx] at hstop
  rw [hx] at hlt hy ⊢
  have hplace : r.place ⟨x, (c.board r h).width, x - (c.board r h).delta, (c.board r h).height⟩ =
      ⟨r.startX + x, r.endX, r.startY + y, r.endY⟩ := by
    simp only [Rect.place, Snake.mk.injEq]
    omega
  rw [hplace]
  refine ⟨⟨rfl, rfl⟩, by simp only; omega, fun hlt hlt' => ?_⟩
  refine eq_false_of_ne_true fun htrue => hstop ⟨by simp only at hlt; omega,
    by simp only at hlt'; omega, ?_⟩
  simp only at hlt hlt' htrue
  have hcol : (x : Int) - 1 = ((x - 1 : Nat) : Int) := by omega
  have hrow : (y : Int) - 1 = ((y - 1 : Nat) : Int) := by omega
  rw [hcol, hrow, Board.pair_natCast]
  simp only [Comparison.board]
  rwa [← Nat.add_sub_assoc (by omega), ← Nat.add_sub_assoc (by omega)]

/-! ## Derivations of a search -/

/-- A search of a rectangle yields the snakes. -/
inductive Searched (c : Comparison σ) (same : Nat → Nat → Bool) (bound : Nat) :
    Rect → List Snake → Prop
  | closed {r : Rect} : ¬ r.isOpen → Searched c same bound r []
  | divided {r : Rect} {first last : List Snake} (h : r.isOpen) (f : Frontiers bound) :
    Searched c same bound (r.before (c.divide r h f).1) first →
    Searched c same bound (r.after (c.divide r h f).1) last →
    Searched c same bound r (first ++ confirmed same (c.divide r h f).1 ++ last)

theorem confirm_ensures (hc : c.Judges valid fails same) {s : Snake} (hu : s.u ≤ c.oldCount)
    (hv : s.v ≤ c.newCount) (hdiag : s.u + s.y = s.v + s.x) (hxu : s.x ≤ s.u) :
    Ensures valid fails (c.confirm s) (· = confirmed same s) := by
  have hmarks : Ensures valid fails
      ((List.range (s.u - s.x)).mapM fun k => c.equal (s.x + k) (s.y + k))
      (· = (List.range (s.u - s.x)).map fun k => same (s.x + k) (s.y + k)) := by
    refine .mapM fun k hk => ?_
    have := List.mem_range.1 hk
    exact hc _ _ (by omega) (by omega)
  refine .bind hmarks ?_
  rintro marks rfl
  exact .pure rfl

/-- A search that does not stop with a fault of the comparison comes to an end, if a round is allowed
for or there is nothing to search. -/
theorem search_ensures (hc : c.Decides valid fails same) (r : Rect) (f : Frontiers bound)
    (hstall : r.isOpen → bound = 0 → ∀ r' : Rect, fails r'.stalled) (hx : r.endX ≤ c.oldCount)
    (hy : r.endY ≤ c.newCount) :
    Ensures valid fails (c.search r f) fun out => Searched c same bound r out.1 := by
  induction r, f using Comparison.search.induct c with
  | case1 r f h s f' hdivide hlarge =>
      have hdiv : r.Divided c.likely bound s := by
        have := c.divide_divided r h f
        rwa [hdivide] at this
      rw [Comparison.search, dif_pos h]
      simp only [hdivide, if_pos hlarge]
      refine .throw (hstall h ?_ r)
      by_contra hbound
      have := hdiv.shrinks (Nat.pos_of_ne_zero hbound)
      omega
  | case2 r f h s f' hdivide hsmall ihbefore ihafter =>
      have hdiv : r.Divided c.likely bound s := by
        have := c.divide_divided r h f
        rwa [hdivide] at this
      rw [Comparison.search, dif_pos h]
      simp only [hdivide, if_neg hsmall]
      have hs : (c.divide r h f).1 = s := by rw [hdivide]
      have hxu := hdiv.matched.x_le_u
      have hdiag := hdiv.matched.diagonal
      have hright := hdiv.right
      refine .bind (ihbefore (fun _ => hstall h) (by simp only [Rect.before]; omega)
        (by simp only [Rect.before]; omega)) fun out hfirst => ?_
      refine .bind (confirm_ensures hc.equal (by omega) (by omega) hdiag hxu) ?_
      rintro own rfl
      refine .bind (ihafter out.2 (fun _ => hstall h) hx hy) fun out' hlast => ?_
      refine .pure ?_
      subst hs
      exact .divided h f hfirst hlast
  | case3 r f h =>
      rw [Comparison.search, dif_neg h]
      exact .pure (.closed h)

namespace Searched

variable {r : Rect} {snakes : List Snake}

theorem ascends (h : Searched c same bound r snakes)
    (hr : r.startX ≤ r.endX ∧ r.startY ≤ r.endY) :
    Ascends same r.endX r.endY r.startX r.startY snakes := by
  induction h with
  | closed _ => exact hr
  | @divided r first last h f _ _ ihfirst ihlast =>
      have hdiv := c.divide_divided r h f
      have hxu := hdiv.matched.x_le_u
      have hdiag := hdiv.matched.diagonal
      have hv : (c.divide r h f).1.y + ((c.divide r h f).1.u - (c.divide r h f).1.x) =
          (c.divide r h f).1.v := by omega
      have hown := (confirmed_runs same (c.divide r h f).1).ascends
      rw [Nat.add_sub_cancel' hxu, hv] at hown
      exact ((ihfirst hdiv.left).append hown).append (ihlast hdiv.right)

theorem nonempty (h : Searched c same bound r snakes) : ∀ s ∈ snakes, s.x < s.u := by
  induction h with
  | closed _ => simp
  | @divided r first last h f _ _ ihfirst ihlast =>
      intro s hs
      rcases List.mem_append.1 hs with hs | hs
      · rcases List.mem_append.1 hs with hs | hs
        · exact ihfirst s hs
        · exact (confirmed_runs same _).nonempty s hs
      · exact ihlast s hs

/-- The snakes of a search that never gives up too early hold as many pairs as a longest common
subsequence: a rectangle that is divided before its cheapest paths are found has no equal pair at all. -/
theorem matched_eq_lcs (h : Searched c same bound r snakes)
    (hsame : ∀ i j, i < r.endX → j < r.endY → c.likely i j = same i j)
    (hr : r.startX ≤ r.endX ∧ r.startY ≤ r.endY)
    (hbound : (r.endX - r.startX) + (r.endY - r.startY) ≤ 2 * bound + 1) :
    matched snakes = r.lcs same := by
  have hle : matched snakes ≤ r.lcs same := matched_le_lcs (h.ascends hr)
  induction h with
  | closed hclosed => rw [Rect.lcs_of_not_isOpen same _ hclosed, matched_nil]
  | @divided r first last h f hfirst hlast ihfirst ihlast =>
      have hdiv := (c.divide_divided r h f).congr hsame
      generalize (c.divide r h f).1 = s at hdiv hfirst hlast ihfirst ihlast hle
      have hleft := hdiv.left
      have hright := hdiv.right
      have hxu := hdiv.matched.x_le_u
      have hdiag := hdiv.matched.diagonal
      rcases hdiv.cheapest with hcheap | hexpensive
      · have hbefore : matched first = (r.before s).lcs same := by
          refine ihfirst (fun i j hi hj => hsame i j ?_ ?_) hleft ?_
            (matched_le_lcs (hfirst.ascends hleft))
          · simp only [Rect.before] at hi
            omega
          · simp only [Rect.before] at hj
            omega
          · simp only [Rect.before]
            omega
        have hafter : matched last = (r.after s).lcs same := by
          refine ihlast hsame hright ?_ (matched_le_lcs (hlast.ascends hright))
          simp only [Rect.after]
          omega
        rw [matched_append, matched_append, hbefore, hafter, matched_confirmed hdiv.matched]
        exact hcheap
      · omega

end Searched

end TokenDiff
