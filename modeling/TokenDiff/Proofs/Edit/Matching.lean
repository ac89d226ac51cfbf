import Mathlib.Data.List.Basic
import Mathlib.Order.Bounds.Basic
import TokenDiff.Edit.Script

/-!
# Longest matchings

A matching of a rectangle of the edit graph is a list of its pairs that ascends in both coordinates and
whose pairs all match. `lcs same m n` is the recursion along the last tokens of two sequences, and
`lcs_isGreatest` says that it is the size of a largest matching. So what is needed about common
subsequences is shown of one side or the other, whichever is easier: the recursion for what one more
token changes, matchings for joining two parts and for reading both sequences backwards.
-/

namespace TokenDiff

/-- A strictly monotone matching of the tokens of a rectangle. -/
structure IsMatching (same : Nat → Nat → Bool) (r : Rect) (pairs : List (Nat × Nat)) : Prop where
  ascending : pairs.Pairwise fun p q => p.1 < q.1 ∧ p.2 < q.2
  inside : ∀ p ∈ pairs, (r.startX ≤ p.1 ∧ p.1 < r.endX) ∧ r.startY ≤ p.2 ∧ p.2 < r.endY
  matched : ∀ p ∈ pairs, same p.1 p.2 = true

namespace IsMatching

variable {same other : Nat → Nat → Bool} {r r' : Rect} {pairs pairs' : List (Nat × Nat)}

theorem nil : IsMatching same r [] := ⟨.nil, by simp, by simp⟩

theorem eq_nil (h : IsMatching same r pairs) (hr : ¬ r.isOpen) : pairs = [] := by
  refine List.eq_nil_iff_forall_not_mem.2 fun p hp => hr ?_
  have := h.inside p hp
  constructor <;> omega

theorem widen (h : IsMatching same r pairs) (r' : Rect) (hx : r'.startX ≤ r.startX ∧ r.endX ≤ r'.endX)
    (hy : r'.startY ≤ r.startY ∧ r.endY ≤ r'.endY) : IsMatching same r' pairs := by
  refine ⟨h.ascending, fun p hp => ?_, h.matched⟩
  have := h.inside p hp
  omega

theorem congr (h : IsMatching same r pairs)
    (heq : ∀ i j, i < r.endX → j < r.endY → same i j = true → other i j = true) :
    IsMatching other r pairs := by
  refine ⟨h.ascending, h.inside, fun p hp => ?_⟩
  have := h.inside p hp
  exact heq p.1 p.2 this.1.2 this.2.2 (h.matched p hp)

/-- The matchings of two rectangles, the second of which lies beyond the first, are together one of any
rectangle that holds both. -/
theorem append (h : IsMatching same r pairs) (h' : IsMatching same r' pairs')
    (hx : r.endX ≤ r'.startX) (hy : r.endY ≤ r'.startY)
    (hxx : r.startX ≤ r'.startX ∧ r.endX ≤ r'.endX)
    (hyy : r.startY ≤ r'.startY ∧ r.endY ≤ r'.endY) :
    IsMatching same ⟨r.startX, r.startY, r'.endX, r'.endY⟩ (pairs ++ pairs') := by
  refine ⟨List.pairwise_append.2 ⟨h.ascending, h'.ascending, fun p hp q hq => ?_⟩,
    fun p hp => ?_, fun p hp => ?_⟩
  · have hp := h.inside p hp
    have hq := h'.inside q hq
    omega
  · rcases List.mem_append.1 hp with hp | hp
    · have := h.inside p hp
      simp only
      omega
    · have := h'.inside p hp
      simp only
      omega
  · rcases List.mem_append.1 hp with hp | hp
    · exact h.matched p hp
    · exact h'.matched p hp

/-- The last pair of a matching is ahead of all others, so without it a matching fits into the rectangle
before that pair. -/
theorem of_concat {p : Nat × Nat} (h : IsMatching same r (pairs ++ [p])) :
    IsMatching same { r with endX := p.1, endY := p.2 } pairs := by
  obtain ⟨hasc, -, hlt⟩ := List.pairwise_append.1 h.ascending
  refine ⟨hasc, fun q hq => ?_, fun q hq => h.matched q (List.mem_append_left _ hq)⟩
  have hin := h.inside q (List.mem_append_left _ hq)
  have := hlt q hq p (List.mem_singleton_self p)
  simp only
  omega

theorem narrow {p : Nat × Nat} {x y : Nat} (h : IsMatching same r (pairs ++ [p])) (hx : p.1 < x)
    (hy : p.2 < y) : IsMatching same { r with endX := x, endY := y } (pairs ++ [p]) := by
  refine ⟨h.ascending, fun q hq => ?_, h.matched⟩
  have hin := h.inside q hq
  have hlast := h.inside p (List.mem_append_right _ (List.mem_singleton_self p))
  rcases List.mem_append.1 hq with hq | hq
  · have := h.of_concat.inside q hq
    simp only at this ⊢
    omega
  · obtain rfl := List.mem_singleton.1 hq
    simp only
    omega

theorem inside_of_concat {p : Nat × Nat} (h : IsMatching same r (pairs ++ [p])) :
    ((r.startX ≤ p.1 ∧ p.1 < r.endX) ∧ r.startY ≤ p.2 ∧ p.2 < r.endY) ∧ same p.1 p.2 = true :=
  have hp := List.mem_append_right pairs (List.mem_singleton_self p)
  ⟨h.inside p hp, h.matched p hp⟩

/-- A matching read backwards, in a rectangle that is turned around in the board of `w` by `h`
tokens. -/
theorem turn {w h : Nat} (hm : IsMatching same r pairs) (hw : r.endX ≤ w) (hh : r.endY ≤ h) :
    IsMatching (fun i j => same (w - 1 - i) (h - 1 - j))
      ⟨w - r.endX, h - r.endY, w - r.startX, h - r.startY⟩
      (pairs.map fun p => (w - 1 - p.1, h - 1 - p.2)).reverse := by
  refine ⟨List.pairwise_reverse.2 (List.pairwise_map.2 ?_), fun q hq => ?_, fun q hq => ?_⟩
  · refine hm.ascending.imp_of_mem fun {p q} hp hq hlt => ?_
    have hp := hm.inside p hp
    have hq := hm.inside q hq
    simp only
    omega
  · obtain ⟨p, hp, rfl⟩ := List.mem_map.1 (List.mem_reverse.1 hq)
    have := hm.inside p hp
    simp only
    omega
  · obtain ⟨p, hp, rfl⟩ := List.mem_map.1 (List.mem_reverse.1 hq)
    have := hm.inside p hp
    have hx : w - 1 - (w - 1 - p.1) = p.1 := by omega
    have hy : h - 1 - (h - 1 - p.2) = p.2 := by omega
    simpa only [hx, hy] using hm.matched p hp

end IsMatching

/-- The length of a longest common subsequence of the first `m` and the first `n` tokens. -/
def lcs (same : Nat → Nat → Bool) : Nat → Nat → Nat
  | m + 1, n + 1 =>
    if same m n then lcs same m n + 1 else max (lcs same m (n + 1)) (lcs same (m + 1) n)
  | 0, _ => 0
  | _ + 1, 0 => 0

section lcs

variable (same : Nat → Nat → Bool) (m n : Nat)

@[simp] theorem lcs_zero_left : lcs same 0 n = 0 := by
  unfold lcs
  rfl

@[simp] theorem lcs_zero_right : lcs same m 0 = 0 := by
  cases m with
  | zero => exact lcs_zero_left same 0
  | succ m =>
      unfold lcs
      rfl

theorem lcs_of_same (h : same m n = true) : lcs same (m + 1) (n + 1) = lcs same m n + 1 := by
  rw [lcs, if_pos h]

theorem lcs_of_not_same (h : same m n = false) :
    lcs same (m + 1) (n + 1) = max (lcs same m (n + 1)) (lcs same (m + 1) n) := by
  rw [lcs, if_neg (by simp [h])]

end lcs

/-- The length of a longest common subsequence of the tokens of a rectangle. -/
def Rect.lcs (same : Nat → Nat → Bool) (r : Rect) : Nat :=
  TokenDiff.lcs (fun i j => same (r.startX + i) (r.startY + j)) (r.endX - r.startX)
    (r.endY - r.startY)

/-- There is a matching as large as the recursion says. -/
theorem exists_matching_of_lcs (same rel : Nat → Nat → Bool) (x y m n : Nat)
    (hrel : ∀ i j, rel i j = same (x + i) (y + j)) :
    ∃ pairs, IsMatching same ⟨x, y, x + m, y + n⟩ pairs ∧ pairs.length = lcs rel m n := by
  induction m, n using lcs.induct rel with
  | case1 m n hsame ih =>
      obtain ⟨pairs, hpairs, hlen⟩ := ih
      have hlast : IsMatching same ⟨x + m, y + n, x + (m + 1), y + (n + 1)⟩ [(x + m, y + n)] :=
        ⟨List.pairwise_singleton _ _, by simp, by simpa [hrel] using hsame⟩
      refine ⟨pairs ++ [(x + m, y + n)], hpairs.append hlast le_rfl le_rfl ?_ ?_, ?_⟩
      · simp only; omega
      · simp only; omega
      · simp [lcs_of_same _ _ _ hsame, hlen]
  | case2 m n hsame ih ih' =>
      have hlcs := lcs_of_not_same rel m n (by simpa using hsame)
      obtain ⟨pairs, hpairs, hlen⟩ := ih
      obtain ⟨pairs', hpairs', hlen'⟩ := ih'
      rcases Nat.le_total (lcs rel (m + 1) n) (lcs rel m (n + 1)) with hle | hle
      · refine ⟨pairs, hpairs.widen _ ?_ ?_, ?_⟩
        · simp only; omega
        · simp only; omega
        · rw [hlen, hlcs, Nat.max_eq_left hle]
      · refine ⟨pairs', hpairs'.widen _ ?_ ?_, ?_⟩
        · simp only; omega
        · simp only; omega
        · rw [hlen', hlcs, Nat.max_eq_right hle]
  | case3 n => exact ⟨[], .nil, by simp⟩
  | case4 m => exact ⟨[], .nil, by simp⟩

/-- No matching is larger than the recursion says: one of its pairs can be dropped if the two last tokens
match, and one of the two last tokens is free otherwise. -/
theorem length_le_lcs_of_matching (same rel : Nat → Nat → Bool) (x y m n : Nat)
    (hrel : ∀ i j, rel i j = same (x + i) (y + j)) (pairs : List (Nat × Nat))
    (h : IsMatching same ⟨x, y, x + m, y + n⟩ pairs) : pairs.length ≤ lcs rel m n := by
  induction m, n using lcs.induct rel generalizing pairs with
  | case1 m n hsame ih =>
      rw [lcs_of_same _ _ _ hsame]
      rcases List.eq_nil_or_concat' pairs with rfl | ⟨pairs, p, rfl⟩
      · exact Nat.zero_le _
      · have hp := h.inside_of_concat.1
        have hinit := ih pairs (h.of_concat.widen _ (by simp only at hp ⊢; omega)
          (by simp only at hp ⊢; omega))
        rw [List.length_append, List.length_singleton]
        omega
  | case2 m n hsame ih ih' =>
      rw [lcs_of_not_same _ _ _ (by simpa using hsame)]
      rcases List.eq_nil_or_concat' pairs with rfl | ⟨pairs, p, rfl⟩
      · exact Nat.zero_le _
      · obtain ⟨hp, hmatch⟩ := h.inside_of_concat
        simp only at hp
        by_cases hx : p.1 < x + m
        · exact (ih _ (h.narrow hx hp.2.2)).trans (Nat.le_max_left _ _)
        · by_cases hy : p.2 < y + n
          · exact (ih' _ (h.narrow hp.1.2 hy)).trans (Nat.le_max_right _ _)
          · have hpx : p.1 = x + m := by omega
            have hpy : p.2 = y + n := by omega
            rw [hpx, hpy, ← hrel] at hmatch
            exact absurd hmatch hsame
  | case3 n => simp [h.eq_nil (by simp [Rect.isOpen])]
  | case4 m => simp [h.eq_nil (by simp [Rect.isOpen])]

namespace Rect

variable (same : Nat → Nat → Bool) (r : Rect)

theorem lcs_of_not_isOpen (h : ¬ r.isOpen) : r.lcs same = 0 := by
  have hzero : r.endX - r.startX = 0 ∨ r.endY - r.startY = 0 := by
    simp only [isOpen] at h
    omega
  rcases hzero with hzero | hzero
  · rw [lcs, hzero, lcs_zero_left]
  · rw [lcs, hzero, lcs_zero_right]

/-- The recursion gives the size of a largest matching. -/
theorem lcs_isGreatest :
    IsGreatest {k | ∃ pairs, IsMatching same r pairs ∧ pairs.length = k} (r.lcs same) := by
  by_cases hr : r.isOpen
  · have heq : r = ⟨r.startX, r.startY, r.startX + (r.endX - r.startX),
        r.startY + (r.endY - r.startY)⟩ := by
      rw [Nat.add_sub_cancel' hr.1.le, Nat.add_sub_cancel' hr.2.le]
    constructor
    · have := exists_matching_of_lcs same _ r.startX r.startY (r.endX - r.startX)
        (r.endY - r.startY) fun _ _ => rfl
      rwa [← heq] at this
    · rintro k ⟨pairs, hpairs, rfl⟩
      rw [heq] at hpairs
      exact length_le_lcs_of_matching _ _ _ _ _ _ (fun _ _ => rfl) _ hpairs
  · rw [lcs_of_not_isOpen same r hr]
    constructor
    · exact ⟨[], .nil, rfl⟩
    · rintro k ⟨pairs, hpairs, rfl⟩
      rw [hpairs.eq_nil hr, List.length_nil]

theorem exists_matching : ∃ pairs, IsMatching same r pairs ∧ pairs.length = r.lcs same :=
  (r.lcs_isGreatest same).1

variable {same r}

theorem length_le_lcs {pairs : List (Nat × Nat)} (h : IsMatching same r pairs) :
    pairs.length ≤ r.lcs same :=
  (r.lcs_isGreatest same).2 ⟨pairs, h, rfl⟩

theorem lcs_le_of_imp {other : Nat → Nat → Bool}
    (h : ∀ i j, i < r.endX → j < r.endY → same i j = true → other i j = true) :
    r.lcs same ≤ r.lcs other := by
  obtain ⟨pairs, hpairs, hlen⟩ := r.exists_matching same
  rw [← hlen]
  exact length_le_lcs (hpairs.congr h)

theorem lcs_congr {other : Nat → Nat → Bool}
    (h : ∀ i j, i < r.endX → j < r.endY → same i j = other i j) : r.lcs same = r.lcs other := by
  refine le_antisymm (lcs_le_of_imp fun i j hi hj heq => ?_) (lcs_le_of_imp fun i j hi hj heq => ?_)
  · rw [← h i j hi hj]
    exact heq
  · rw [h i j hi hj]
    exact heq

theorem lcs_mono {r' : Rect} (hx : r'.startX ≤ r.startX ∧ r.endX ≤ r'.endX)
    (hy : r'.startY ≤ r.startY ∧ r.endY ≤ r'.endY) : r.lcs same ≤ r'.lcs same := by
  obtain ⟨pairs, hpairs, hlen⟩ := r.exists_matching same
  rw [← hlen]
  exact length_le_lcs (hpairs.widen r' hx hy)

/-- Two parts of a rectangle that follow one another have no more in common than the whole. -/
theorem lcs_add_le (same : Nat → Nat → Bool) (r : Rect) {x y : Nat}
    (hx : r.startX ≤ x ∧ x ≤ r.endX) (hy : r.startY ≤ y ∧ y ≤ r.endY) :
    Rect.lcs same { r with endX := x, endY := y } + Rect.lcs same { r with startX := x, startY := y } ≤
      r.lcs same := by
  obtain ⟨first, hfirst, hlen⟩ := exists_matching same { r with endX := x, endY := y }
  obtain ⟨last, hlast, hlen'⟩ := exists_matching same { r with startX := x, startY := y }
  have hboth := hfirst.append hlast le_rfl le_rfl hx hy
  have hle : (first ++ last).length ≤ r.lcs same := length_le_lcs hboth
  rw [List.length_append] at hle
  omega

theorem lcs_succ_succ_le {x y m n : Nat} :
    Rect.lcs same ⟨x, y, m + 1, n + 1⟩ ≤ Rect.lcs same ⟨x, y, m, n⟩ + 1 := by
  obtain ⟨pairs, hpairs, hlen⟩ := exists_matching same ⟨x, y, m + 1, n + 1⟩
  rw [← hlen]
  rcases List.eq_nil_or_concat' pairs with rfl | ⟨init, p, rfl⟩
  · exact Nat.zero_le _
  · have hp := hpairs.inside_of_concat.1
    have hinit : IsMatching same ⟨x, y, m, n⟩ init :=
      hpairs.of_concat.widen _ (by simp only at hp ⊢; omega) (by simp only at hp ⊢; omega)
    rw [List.length_append, List.length_singleton]
    exact Nat.succ_le_succ (length_le_lcs hinit)

/-- A rectangle at the far corner of a board has as much in common as its image at the first corner of
the board turned around. -/
theorem lcs_turn {w h x y : Nat} (hx : x ≤ w) (hy : y ≤ h) :
    TokenDiff.lcs (fun i j => same (w - 1 - i) (h - 1 - j)) (w - x) (h - y) =
      Rect.lcs same ⟨x, y, w, h⟩ := by
  have hfirst : TokenDiff.lcs (fun i j => same (w - 1 - i) (h - 1 - j)) (w - x) (h - y) =
      Rect.lcs (fun i j => same (w - 1 - i) (h - 1 - j)) ⟨0, 0, w - x, h - y⟩ := by
    simp [lcs]
  rw [hfirst]
  apply le_antisymm
  · obtain ⟨pairs, hpairs, hlen⟩ :=
      exists_matching (fun i j => same (w - 1 - i) (h - 1 - j)) ⟨0, 0, w - x, h - y⟩
    have hturn := hpairs.turn (Nat.sub_le w x) (Nat.sub_le h y)
    have hback : IsMatching same _ _ := hturn.congr fun i j hi hj hij => by
      have hi' : w - 1 - (w - 1 - i) = i := by simp only at hi; omega
      have hj' : h - 1 - (h - 1 - j) = j := by simp only at hj; omega
      simpa only [hi', hj'] using hij
    have hle := length_le_lcs (hback.widen ⟨x, y, w, h⟩ (by simp only; omega)
      (by simp only; omega))
    rw [← hlen]
    simpa using hle
  · obtain ⟨pairs, hpairs, hlen⟩ := exists_matching same ⟨x, y, w, h⟩
    have hturn := hpairs.turn (le_refl w) (le_refl h)
    have hle := length_le_lcs (hturn.widen ⟨0, 0, w - x, h - y⟩ (by simp) (by simp))
    rw [← hlen]
    simpa using hle

end Rect

section lcs

variable (same : Nat → Nat → Bool) (m n : Nat)

theorem rect_lcs_of_origin : Rect.lcs same ⟨0, 0, m, n⟩ = lcs same m n := by
  simp [Rect.lcs]

theorem lcs_le_min : lcs same m n ≤ min m n := by
  induction m, n using lcs.induct same with
  | case1 m n hsame ih =>
      change lcs same (m + 1) (n + 1) ≤ min (m + 1) (n + 1)
      rw [lcs_of_same _ _ _ hsame]
      omega
  | case2 m n hsame ih ih' =>
      change lcs same (m + 1) (n + 1) ≤ min (m + 1) (n + 1)
      rw [lcs_of_not_same _ _ _ (by simpa using hsame)]
      omega
  | case3 n => simp
  | case4 m => simp

variable {m n} in
theorem lcs_le_lcs {m' n' : Nat} (hm : m ≤ m') (hn : n ≤ n') : lcs same m n ≤ lcs same m' n' := by
  rw [← rect_lcs_of_origin, ← rect_lcs_of_origin]
  exact Rect.lcs_mono ⟨le_rfl, hm⟩ ⟨le_rfl, hn⟩

theorem lcs_succ_succ_le : lcs same (m + 1) (n + 1) ≤ lcs same m n + 1 := by
  rw [← rect_lcs_of_origin, ← rect_lcs_of_origin]
  exact Rect.lcs_succ_succ_le

end lcs

end TokenDiff
