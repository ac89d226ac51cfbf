import TokenDiff.Proofs.Edit.Matching

/-!
# Ascending snakes

`Ascends same endX endY x y snakes` says that a list of snakes leads from the point `(x, y)` to the point
`(endX, endY)`: each begins where the one before it ended or further on, in both sequences, and holds only
equal pairs. Such lists are joined by `Ascends.append`.

`confirmed same s` is what is kept of a snake, its runs of equal pairs. They ascend along the snake, none is
empty, and none could be longer: where a run begins or ends inside the snake the pair beyond it is
unequal (`Runs.start`, `Runs.stop`).
-/

namespace TokenDiff

variable {same : Nat → Nat → Bool} {x y u v endX endY : Nat}

/-- A snake along a diagonal whose pairs are all equal. -/
structure Snake.Matches (same : Nat → Nat → Bool) (s : Snake) : Prop where
  x_le_u : s.x ≤ s.u
  diagonal : s.u + s.y = s.v + s.x
  equal : ∀ k, k < s.u - s.x → same (s.x + k) (s.y + k) = true

def Snake.Holds (s : Snake) (i j : Nat) : Prop := (s.x ≤ i ∧ i < s.u) ∧ i + s.y = j + s.x

theorem Snake.Matches.same_of_holds {s : Snake} {i j : Nat} (h : s.Matches same) (hpair : s.Holds i j) :
    same i j = true := by
  obtain ⟨⟨hle, hlt⟩, hdiag⟩ := hpair
  have hi : s.x + (i - s.x) = i := by omega
  have hj : s.y + (i - s.x) = j := by omega
  have hequal := h.equal (i - s.x) (by omega)
  rwa [hi, hj] at hequal

/-- The snakes lead from `(x, y)` to `(endX, endY)`. -/
def Ascends (same : Nat → Nat → Bool) (endX endY : Nat) : Nat → Nat → List Snake → Prop
  | x, y, [] => x ≤ endX ∧ y ≤ endY
  | x, y, s :: rest => (x ≤ s.x ∧ y ≤ s.y) ∧ s.Matches same ∧ Ascends same endX endY s.u s.v rest

namespace Ascends

variable {s t : Snake} {first last rest snakes : List Snake}

theorem le (h : Ascends same endX endY x y snakes) : x ≤ endX ∧ y ≤ endY := by
  induction snakes generalizing x y with
  | nil => exact h
  | cons s rest ih =>
      obtain ⟨hle, hs, hrest⟩ := h
      have := ih hrest
      have := hs.x_le_u
      have := hs.diagonal
      omega

theorem of_le (h : Ascends same endX endY u v snakes) (hx : x ≤ u) (hy : y ≤ v) :
    Ascends same endX endY x y snakes := by
  cases snakes with
  | nil => exact ⟨le_trans hx h.1, le_trans hy h.2⟩
  | cons s rest => exact ⟨⟨le_trans hx h.1.1, le_trans hy h.1.2⟩, h.2⟩

theorem append (h : Ascends same u v x y first) (h' : Ascends same endX endY u v last) :
    Ascends same endX endY x y (first ++ last) := by
  induction first generalizing x y with
  | nil => exact h'.of_le h.1 h.2
  | cons s rest ih => exact ⟨h.1, h.2.1, ih h.2.2⟩

theorem of_mem (h : Ascends same endX endY x y snakes) (hs : s ∈ snakes) :
    s.Matches same ∧ (x ≤ s.x ∧ y ≤ s.y) ∧ s.u ≤ endX ∧ s.v ≤ endY := by
  induction snakes generalizing x y with
  | nil => cases hs
  | cons t rest ih =>
      obtain ⟨hle, ht, hrest⟩ := h
      rcases List.mem_cons.1 hs with rfl | hs
      · exact ⟨ht, hle, hrest.le⟩
      · have := ih hrest hs
        have := ht.x_le_u
        have := ht.diagonal
        exact ⟨(ih hrest hs).1, by omega, (ih hrest hs).2.2⟩

theorem of_mem_init (h : Ascends same endX endY x y (first ++ [t])) (hs : s ∈ first) :
    s.u ≤ t.x ∧ s.v ≤ t.y := by
  induction first generalizing x y with
  | nil => cases hs
  | cons s' rest ih =>
      rcases List.mem_cons.1 hs with rfl | hs
      · exact (h.2.2.of_mem (List.mem_append_right _ (List.mem_singleton_self t))).2.1
      · exact ih h.2.2 hs

/-- No two snakes overlap. -/
theorem pairwise (h : Ascends same endX endY x y snakes) :
    snakes.Pairwise fun s t => s.u ≤ t.x ∧ s.v ≤ t.y := by
  induction snakes generalizing x y with
  | nil => exact .nil
  | cons s rest ih => exact .cons (fun t ht => (h.2.2.of_mem ht).2.1) (ih h.2.2)

theorem isChain (h : Ascends same endX endY x y snakes) :
    snakes.IsChain fun s t => s.u ≤ t.x ∧ s.v ≤ t.y :=
  h.pairwise.isChain

end Ascends

/-- The number of pairs in a list of snakes. -/
def matched : List Snake → Nat
  | [] => 0
  | s :: rest => (s.u - s.x) + matched rest

section matched

variable (s : Snake) (first last rest : List Snake)

@[simp] theorem matched_nil : matched [] = 0 := rfl

@[simp] theorem matched_cons : matched (s :: rest) = (s.u - s.x) + matched rest := rfl

@[simp] theorem matched_append : matched (first ++ last) = matched first + matched last := by
  induction first with
  | nil => simp
  | cons s rest ih => rw [List.cons_append, matched_cons, matched_cons, ih, Nat.add_assoc]

end matched

/-! ## The runs of equal pairs of a snake -/

/-- The snakes are the maximal runs of equal pairs among the `n` pairs from `(x, y)` on. -/
structure Runs (same : Nat → Nat → Bool) (x y n : Nat) (runs : List Snake) : Prop where
  ascends : Ascends same (x + n) (y + n) x y runs
  nonempty : ∀ s ∈ runs, s.x < s.u
  diagonal : ∀ s ∈ runs, s.x + y = s.y + x
  covers : ∀ k, k < n → same (x + k) (y + k) = true → ∃ s ∈ runs, s.x ≤ x + k ∧ x + k < s.u
  start : ∀ s ∈ runs, s.x = x ∨ same (s.x - 1) (s.y - 1) = false
  stop : ∀ s ∈ runs, s.u = x + n ∨ same s.u s.v = false

namespace Runs

variable {m n : Nat} {first last runs : List Snake}

/-- Pairs that are all equal are a single run. -/
theorem whole (h : ∀ k, k < n → same (x + k) (y + k) = true) :
    Runs same x y n (if n = 0 then [] else [⟨x, x + n, y, y + n⟩]) := by
  split_ifs with hn
  · subst hn
    exact ⟨⟨le_rfl, le_rfl⟩, by simp, by simp, fun k hk => absurd hk (Nat.not_lt_zero k), by simp,
      by simp⟩
  · have hmatch : Snake.Matches same ⟨x, x + n, y, y + n⟩ :=
      ⟨Nat.le_add_right _ _, by simp only; omega, fun k hk => h k (by simp only at hk; omega)⟩
    constructor
    case ascends => exact ⟨⟨le_rfl, le_rfl⟩, hmatch, le_rfl, le_rfl⟩
    case nonempty =>
      simp only [List.mem_singleton, forall_eq]
      omega
    case diagonal =>
      simp only [List.mem_singleton, forall_eq]
      omega
    case covers =>
      intro k hk _
      refine ⟨_, List.mem_singleton_self _, ?_, ?_⟩
      · simp only
        omega
      · simp only
        omega
    case start => simp
    case stop => simp

/-- Two stretches of pairs with an unequal one between them. -/
theorem append (h : Runs same x y m first) (hgap : same (x + m) (y + m) = false)
    (h' : Runs same (x + m + 1) (y + m + 1) n last) :
    Runs same x y (m + 1 + n) (first ++ last) := by
  constructor
  case ascends =>
    have hasc := h.ascends.append (h'.ascends.of_le (Nat.le_succ _) (Nat.le_succ _))
    have hx : x + m + 1 + n = x + (m + 1 + n) := by omega
    have hy : y + m + 1 + n = y + (m + 1 + n) := by omega
    rwa [hx, hy] at hasc
  case nonempty =>
    intro s hs
    rcases List.mem_append.1 hs with hs | hs
    · exact h.nonempty s hs
    · exact h'.nonempty s hs
  case diagonal =>
    intro s hs
    rcases List.mem_append.1 hs with hs | hs
    · exact h.diagonal s hs
    · have := h'.diagonal s hs
      omega
  case covers =>
    intro k hk hsame
    rcases Nat.lt_trichotomy k m with hlt | rfl | hgt
    · obtain ⟨s, hs, hin⟩ := h.covers k hlt hsame
      exact ⟨s, List.mem_append_left _ hs, hin⟩
    · rw [hgap] at hsame
      exact absurd hsame (by simp)
    · have hx : x + m + 1 + (k - (m + 1)) = x + k := by omega
      have hy : y + m + 1 + (k - (m + 1)) = y + k := by omega
      obtain ⟨s, hs, hin⟩ := h'.covers (k - (m + 1)) (by omega) (by rwa [hx, hy])
      rw [hx] at hin
      exact ⟨s, List.mem_append_right _ hs, hin⟩
  case start =>
    intro s hs
    rcases List.mem_append.1 hs with hs | hs
    · exact h.start s hs
    · rcases h'.start s hs with heq | hstart
      · have := h'.diagonal s hs
        have hx : s.x - 1 = x + m := by omega
        have hy : s.y - 1 = y + m := by omega
        rw [hx, hy]
        exact .inr hgap
      · exact .inr hstart
  case stop =>
    intro s hs
    rcases List.mem_append.1 hs with hs | hs
    · rcases h.stop s hs with heq | hstop
      · have hs' := (h.ascends.of_mem hs).1
        have := h.diagonal s hs
        have := hs'.diagonal
        have hv : s.v = y + m := by omega
        rw [heq, hv]
        exact .inr hgap
      · exact .inr hstop
    · rcases h'.stop s hs with heq | hstop
      · exact .inl (by omega)
      · exact .inr hstop

/-- A run that begins with the first pair is the first one. -/
theorem head_of_same (h : Runs same x y n runs) (hn : 0 < n) (hsame : same x y = true) :
    ∃ s rest, runs = s :: rest ∧ s.x = x ∧ s.y = y := by
  obtain ⟨s, hs, hle, hlt⟩ := h.covers 0 hn hsame
  have hasc := h.ascends
  have hdiag := h.diagonal
  cases runs with
  | nil => cases hs
  | cons t rest =>
      refine ⟨t, rest, rfl, ?_⟩
      have ht := hdiag t List.mem_cons_self
      rcases List.mem_cons.1 hs with rfl | hs
      · have := hasc.1
        omega
      · have := (hasc.2.2.of_mem hs).2.1
        have := h.nonempty t List.mem_cons_self
        have := hasc.1
        omega

/-- A run that ends with the last pair is the last one. -/
theorem last_of_same (h : Runs same x y (n + 1) runs) (hsame : same (x + n) (y + n) = true) :
    ∃ init s, runs = init ++ [s] ∧ s.u = x + n + 1 ∧ s.v = y + n + 1 := by
  obtain ⟨s, hs, hle, hlt⟩ := h.covers n (Nat.lt_succ_self n) hsame
  rcases List.eq_nil_or_concat' runs with rfl | ⟨init, t, rfl⟩
  · cases hs
  · refine ⟨init, t, rfl, ?_⟩
    have hmem : t ∈ init ++ [t] := List.mem_append_right _ (List.mem_singleton_self t)
    have ht := h.ascends.of_mem hmem
    have hdiag := h.diagonal t hmem
    have := ht.1.diagonal
    rcases List.mem_append.1 hs with hs | hs
    · have := (h.ascends.of_mem_init hs).1
      have := h.nonempty t hmem
      omega
    · obtain rfl := List.mem_singleton.1 hs
      omega

end Runs

/-- What `marks` says of the pairs from `(x, y)` on. -/
def Marks (same : Nat → Nat → Bool) (x y : Nat) (marks : List Bool) : Prop :=
  ∀ k (h : k < marks.length), marks[k] = same (x + k) (y + k)

namespace Marks

variable {mark : Bool} {marks : List Bool}

theorem head (h : Marks same x y (mark :: marks)) : same x y = mark :=
  (h 0 (Nat.succ_pos _)).symm

theorem tail (h : Marks same x y (mark :: marks)) : Marks same (x + 1) (y + 1) marks := by
  intro k hk
  have := h (k + 1) (Nat.succ_lt_succ hk)
  rw [List.getElem_cons_succ] at this
  rw [this]
  congr 1 <;> omega

end Marks

/-- The runs that are read off a list of marks, when the pairs before it are known to be a run. -/
theorem runsFrom_runs {len : Nat} {marks : List Bool}
    (hlen : ∀ k, k < len → same (x + k) (y + k) = true)
    (hmarks : Marks same (x + len) (y + len) marks) :
    Runs same x y (len + marks.length) (runsFrom x y len marks) := by
  induction marks generalizing x y len with
  | nil =>
      rw [runsFrom]
      exact .whole hlen
  | cons mark marks ih =>
      cases mark with
      | true =>
          have hnext : ∀ k, k < len + 1 → same (x + k) (y + k) = true := by
            intro k hk
            rcases Nat.lt_succ_iff_lt_or_eq.1 hk with hlt | rfl
            · exact hlen k hlt
            · exact hmarks.head
          have hlength : len + 1 + marks.length = len + (true :: marks).length := by
            rw [List.length_cons]
            omega
          rw [← hlength]
          exact ih hnext hmarks.tail
      | false =>
          have hlength : len + 1 + (0 + marks.length) = len + (false :: marks).length := by
            rw [List.length_cons]
            omega
          rw [← hlength]
          exact (Runs.whole hlen).append hmarks.head
            (ih (fun k hk => absurd hk (Nat.not_lt_zero k)) hmarks.tail)

def confirmed (same : Nat → Nat → Bool) (s : Snake) : List Snake :=
  runsFrom s.x s.y 0 ((List.range (s.u - s.x)).map fun k => same (s.x + k) (s.y + k))

theorem confirmed_runs (same : Nat → Nat → Bool) (s : Snake) :
    Runs same s.x s.y (s.u - s.x) (confirmed same s) := by
  have hmarks : Marks same s.x s.y
      ((List.range (s.u - s.x)).map fun k => same (s.x + k) (s.y + k)) := by
    intro k hk
    simp
  have hruns := runsFrom_runs (fun k hk => absurd hk (Nat.not_lt_zero k)) hmarks
  rwa [List.length_map, List.length_range, Nat.zero_add] at hruns

/-- Nothing is lost of a snake that matches. -/
theorem matched_confirmed {s : Snake} (h : s.Matches same) :
    matched (confirmed same s) = s.u - s.x := by
  have hruns := confirmed_runs same s
  have hx := h.x_le_u
  have hv := h.diagonal
  generalize confirmed same s = runs at hruns
  cases runs with
  | nil =>
      rcases hx.eq_or_lt with heq | hlt
      · rw [heq, matched_nil, Nat.sub_self]
      · obtain ⟨t, ht, -⟩ := hruns.covers 0 (by omega) (h.equal 0 (by omega))
        cases ht
  | cons t rest =>
      have ht := List.mem_cons_self (a := t) (l := rest)
      have htin := hruns.ascends.of_mem ht
      have htlt := hruns.nonempty t ht
      have hdiag := hruns.diagonal t ht
      have hdiag' := htin.1.diagonal
      -- the first run cannot stop before the end, and so it is the only one
      have hend : t.u = s.u := by
        rcases hruns.stop t ht with heq | hstop
        · omega
        · by_contra hne
          have hsame := h.same_of_holds (i := t.u) (j := t.v) ⟨by omega, by omega⟩
          rw [hstop] at hsame
          cases hsame
      have hstart : t.x = s.x := by
        obtain ⟨t', rest', heq, hx', -⟩ := hruns.head_of_same (by omega)
          (h.equal 0 (by omega))
        rw [List.cons.inj heq |>.1, hx']
      have hrest : rest = [] := by
        apply List.eq_nil_iff_forall_not_mem.2
        intro t' ht'
        have := hruns.ascends.2.2.of_mem ht'
        have := hruns.nonempty t' (List.mem_cons_of_mem t ht')
        omega
      rw [hrest, matched_cons, matched_nil, hend, hstart, Nat.add_zero]

/-! ## Snakes as a matching -/

theorem lcs_of_diagonal {rel : Nat → Nat → Bool} {n : Nat} (h : ∀ k, k < n → rel k k = true) :
    lcs rel n n = n := by
  induction n with
  | zero => exact lcs_zero_left rel 0
  | succ n ih =>
      rw [lcs_of_same _ _ _ (h n (Nat.lt_succ_self n)), ih fun k hk => h k (Nat.lt_succ_of_lt hk)]

/-- The pairs of ascending snakes are a matching, and so not more than a longest common subsequence
has. -/
theorem matched_le_lcs {snakes : List Snake} (h : Ascends same endX endY x y snakes) :
    matched snakes ≤ Rect.lcs same ⟨x, y, endX, endY⟩ := by
  induction snakes generalizing x y with
  | nil => exact Nat.zero_le _
  | cons s rest ih =>
      obtain ⟨hle, hs, hrest⟩ := h
      have hx := hs.x_le_u
      have hdiag := hs.diagonal
      have hend := hrest.le
      have hrun : Rect.lcs same ⟨s.x, s.y, s.u, s.v⟩ = s.u - s.x := by
        have hsides : s.v - s.y = s.u - s.x := by omega
        rw [Rect.lcs, hsides]
        exact lcs_of_diagonal hs.equal
      have hadd := Rect.lcs_add_le same ⟨s.x, s.y, endX, endY⟩ (x := s.u) (y := s.v)
        ⟨hx, hend.1⟩ ⟨by simp only; omega, hend.2⟩
      have hmono : Rect.lcs same ⟨s.x, s.y, endX, endY⟩ ≤ Rect.lcs same ⟨x, y, endX, endY⟩ :=
        Rect.lcs_mono ⟨hle.1, le_rfl⟩ ⟨hle.2, le_rfl⟩
      have := ih hrest
      simp only at hadd
      rw [matched_cons]
      omega

end TokenDiff
