import TokenDiff.Proofs.Window.Tape

/-!
# Comparing two tapes

Two windows are compared by the pairs of bytes at their cursors, as many as are asked for or as both have.
The pairs are taken a buffer at a time; `answers_compare` says that the order at the first pair of
different bytes comes out, and where the cursors are then, whatever lay in the two buffers.
-/

namespace TokenDiff

open PairM

/-! ## Operations on one of two windows -/

namespace Answers

variable {α : Type} {pre post other : Window → Prop} {x : WindowM α} {a : α}

theorem onLeft (h : Answers pre x a post) :
    Answers (fun s => pre s.1 ∧ other s.2) (onLeft x) a (fun s => post s.1 ∧ other s.2) := by
  rintro ⟨l, r⟩ ⟨hl, hr⟩
  obtain ⟨l', hx, hl'⟩ := h l hl
  exact ⟨(l', r), by simp only [PairM.onLeft, hx], hl', hr⟩

theorem onRight (h : Answers pre x a post) :
    Answers (fun s => other s.1 ∧ pre s.2) (onRight x) a (fun s => other s.1 ∧ post s.2) := by
  rintro ⟨l, r⟩ ⟨hl, hr⟩
  obtain ⟨r', hx, hr'⟩ := h r hr
  exact ⟨(l, r'), by simp only [PairM.onRight, hx], hl, hr'⟩

theorem exchanged {pre post : Window × Window → Prop} {x : PairM α} (h : Answers pre x a post) :
    Answers (fun s => pre s.swap) (exchanged x) a (fun s => post s.swap) := by
  rintro ⟨l, r⟩ hs
  obtain ⟨⟨r', l'⟩, hx, hs'⟩ := h (r, l) hs
  exact ⟨(l', r'), by simp only [PairM.exchanged, hx], hs'⟩

end Answers

def Both (t u : Tape) (s : Window × Window) : Prop := s.1.Shows t ∧ s.2.Shows u

/-! ## The first difference -/

def differ (p : UInt8 × UInt8) : Bool := p.1 != p.2

/-- The order of two bytes at the first difference. -/
def firstOrder (pairs : List (UInt8 × UInt8)) : Ordering :=
  match pairs.find? differ with
  | some p => compare p.1 p.2
  | none => .eq

/-- The number of pairs up to the first difference, that one included. -/
def comparedCount (pairs : List (UInt8 × UInt8)) : Nat := min (pairs.findIdx differ + 1) pairs.length

section

variable {xs ys : List (UInt8 × UInt8)}

theorem firstOrder_append_of_none (h : xs.findIdx? differ = none) :
    firstOrder (xs ++ ys) = firstOrder ys := by
  have hnone : xs.find? differ = none := by
    rw [List.find?_eq_none]
    intro p hp
    simp [List.findIdx?_eq_none_iff.1 h p hp]
  rw [firstOrder, firstOrder, List.find?_append, hnone, Option.none_or]

theorem comparedCount_append_of_none (h : xs.findIdx? differ = none) :
    comparedCount (xs ++ ys) = xs.length + comparedCount ys := by
  have hnone : ¬ xs.findIdx differ < xs.length := by
    rw [List.findIdx_lt_length]
    rintro ⟨p, hp, hdiffer⟩
    rw [List.findIdx?_eq_none_iff.1 h p hp] at hdiffer
    cases hdiffer
  rw [comparedCount, comparedCount, List.findIdx_append, if_neg hnone, List.length_append]
  omega

theorem firstOrder_append_of_some {k : Nat} (ys : List (UInt8 × UInt8))
    (h : xs.findIdx? differ = some k) :
    firstOrder (xs ++ ys) = firstOrder xs ∧ comparedCount (xs ++ ys) = k + 1 := by
  obtain ⟨hk, hdiffer, -⟩ := List.findIdx?_eq_some_iff_getElem.1 h
  have hidx : xs.findIdx differ = k := (List.findIdx?_eq_some_iff_findIdx_eq.1 h).2
  have hfind : (xs.find? differ).isSome := List.find?_isSome.2 ⟨_, List.getElem_mem hk, hdiffer⟩
  constructor
  · rw [firstOrder, firstOrder, List.find?_append, Option.or_of_isSome hfind]
  · rw [comparedCount, List.findIdx_append, if_pos (by rwa [hidx]), hidx, List.length_append]
    omega

theorem firstOrder_eq_compare {k : Nat} (h : xs.findIdx? differ = some k) :
    ∃ p, xs[k]? = some p ∧ firstOrder xs = compare p.1 p.2 := by
  obtain ⟨hk, hdiffer, hbefore⟩ := List.findIdx?_eq_some_iff_getElem.1 h
  refine ⟨xs[k], List.getElem?_eq_getElem hk, ?_⟩
  have hfind : xs.find? differ = some xs[k] := by
    refine List.find?_eq_some_iff_getElem.2 ⟨hdiffer, k, hk, rfl, fun j hj => ?_⟩
    simpa using hbefore j hj
  rw [firstOrder, hfind]

end

namespace Window

/-- The first difference of two buffers is that of the bytes they hold. -/
theorem mismatch_eq_findIdx? {left right : Array UInt8} {i j n : Nat} (xs ys : List UInt8)
    (hx : n ≤ xs.length) (hy : n ≤ ys.length) (hleft : ∀ k < n, left[i + k]? = xs[k]?)
    (hright : ∀ k < n, right[j + k]? = ys[k]?) :
    mismatch left right i j n = ((xs.zip ys).take n).findIdx? differ := by
  induction n generalizing i j xs ys with
  | zero => rfl
  | succ n ih =>
      match xs, ys with
      | x :: xs, y :: ys =>
          have hhead : left[i]? = some x := hleft 0 (Nat.succ_pos n)
          have hhead' : right[j]? = some y := hright 0 (Nat.succ_pos n)
          have htail :=
            ih (i := i + 1) (j := j + 1) xs ys (Nat.le_of_succ_le_succ hx) (Nat.le_of_succ_le_succ hy)
            (fun k hk => by rw [Nat.add_assoc, Nat.add_comm 1]; exact hleft (k + 1) (by omega))
            (fun k hk => by rw [Nat.add_assoc, Nat.add_comm 1]; exact hright (k + 1) (by omega))
          rw [mismatch, hhead, hhead', List.zip_cons_cons, List.take_succ_cons, List.findIdx?_cons, htail]
          by_cases hxy : x = y
          · simp [differ, hxy]
          · simp [differ, hxy]

section

variable {l r l₁ r₁ : Window} {n i j : Nat}

theorem compare_of_end (hl : ready l = .ok i l₁) (hr : ready r = .ok j r₁) (hn : n ≠ 0)
    (hend : i = 0 ∨ j = 0) : compare n (l, r) = .ok .eq (l₁, r₁) := by
  rw [compare, if_neg hn]
  change EStateM.bind (onLeft ready) _ (l, r) = _
  rw [EStateM.bind, PairM.onLeft, hl]
  change EStateM.bind (onRight ready) _ (l₁, r) = _
  rw [EStateM.bind, PairM.onRight, hr]
  change (if i = 0 ∨ j = 0 then _ else _ : PairM Ordering) (l₁, r₁) = _
  rw [if_pos hend]
  rfl

/-- One round: the bytes that both windows have in their buffers. -/
theorem compare_of_ready (hl : ready l = .ok i l₁) (hr : ready r = .ok j r₁) (hn : n ≠ 0)
    (hsome : ¬(i = 0 ∨ j = 0)) :
    compare n (l, r) =
      match mismatch l₁.buffer r₁.buffer l₁.position r₁.position (min (min i j) n) with
      | some k =>
        .ok (Ord.compare (l₁.buffer.getD (l₁.position + k) 0) (r₁.buffer.getD (r₁.position + k) 0))
          ({ l₁ with position := l₁.position + (k + 1) }, { r₁ with position := r₁.position + (k + 1) })
      | none =>
        compare (n - min (min i j) n)
          ({ l₁ with position := l₁.position + min (min i j) n },
            { r₁ with position := r₁.position + min (min i j) n }) := by
  rw [compare, if_neg hn]
  change EStateM.bind (onLeft ready) _ (l, r) = _
  rw [EStateM.bind, PairM.onLeft, hl]
  change EStateM.bind (onRight ready) _ (l₁, r) = _
  rw [EStateM.bind, PairM.onRight, hr]
  change (if i = 0 ∨ j = 0 then _ else _ : PairM Ordering) (l₁, r₁) = _
  rw [if_neg hsome]
  change (match mismatch l₁.buffer r₁.buffer l₁.position r₁.position (min (min i j) n) with
    | some k => _
    | none => _ : PairM Ordering) (l₁, r₁) = _
  cases mismatch l₁.buffer r₁.buffer l₁.position r₁.position (min (min i j) n) <;> rfl

end

theorem take_zip_rest (t u : Tape) {span n : Nat} (h : span ≤ n) :
    (t.rest.zip u.rest).take n = (t.rest.zip u.rest).take span ++
      ((t.forward span).rest.zip (u.forward span).rest).take (n - span) := by
  have hdrop : (t.rest.zip u.rest).drop span = (t.rest.drop span).zip (u.rest.drop span) :=
    List.drop_zipWith
  rw [Tape.rest_forward, Tape.rest_forward, ← hdrop, ← List.take_add, Nat.add_sub_cancel' h]

/-- The comparison reports the order at the first difference and moves both cursors past it, or past all
that was to be compared. -/
theorem answers_compare (t u : Tape) (n : Nat) :
    Answers (Both t u) (compare n) (firstOrder ((t.rest.zip u.rest).take n))
      (Both (t.forward (comparedCount ((t.rest.zip u.rest).take n)))
        (u.forward (comparedCount ((t.rest.zip u.rest).take n)))) := by
  induction n using Nat.strong_induction_on generalizing t u with
  | _ n ih =>
      rintro ⟨l, r⟩ ⟨hl, hr⟩
      by_cases hn : n = 0
      · have hnone : comparedCount [] = 0 := rfl
        rw [compare, if_pos hn, hn, List.take_zero, hnone, Tape.forward_zero, Tape.forward_zero]
        exact ⟨_, rfl, hl, hr⟩
      · obtain ⟨l₁, hready, hl₁⟩ := hl.ready
        obtain ⟨r₁, hready', hr₁⟩ := hr.ready
        by_cases hend : l₁.available = 0 ∨ r₁.available = 0
        · have hnone : comparedCount [] = 0 := rfl
          have hnil : (t.rest.zip u.rest).take n = [] := by
            rcases hend with hend | hend
            · rw [hl₁.rest_nil hend, List.zip_nil_left, List.take_nil]
            · rw [hr₁.rest_nil hend, List.zip_nil_right, List.take_nil]
          rw [compare_of_end hready hready' hn hend, hnil, hnone, Tape.forward_zero, Tape.forward_zero]
          exact ⟨_, rfl, hl₁.toShows, hr₁.toShows⟩
        · rw [compare_of_ready hready hready' hn hend]
          obtain ⟨span, hspan⟩ : ∃ span, span = min (min l₁.available r₁.available) n := ⟨_, rfl⟩
          rw [← hspan]
          have hsplit := take_zip_rest t u (hspan ▸ Nat.min_le_right _ n : span ≤ n)
          have hlen := hl₁.available_le
          have hlen' := hr₁.available_le
          have hfind := mismatch_eq_findIdx? (n := span) t.rest u.rest (by omega)
            (by omega) (fun k hk => hl₁.getElem? (by omega))
            (fun k hk => hr₁.getElem? (by omega))
          cases hfirst : mismatch l₁.buffer r₁.buffer l₁.position r₁.position span with
          | some k =>
              rw [hfirst] at hfind
              obtain ⟨horder, hcount⟩ := firstOrder_append_of_some
                (((t.forward span).rest.zip (u.forward span).rest).take (n - span)) hfind.symm
              obtain ⟨p, hp, hcompare⟩ := firstOrder_eq_compare hfind.symm
              have hk := (List.getElem?_eq_some_iff.1 hp).1
              rw [List.length_take] at hk
              rw [List.getElem?_take_of_lt (by omega), List.getElem?_zip_eq_some] at hp
              have hleft : l₁.buffer.getD (l₁.position + k) 0 = p.1 := by
                rw [Array.getD_eq_getD_getElem?, hl₁.getElem? (by omega), hp.1]
                rfl
              have hright : r₁.buffer.getD (r₁.position + k) 0 = p.2 := by
                rw [Array.getD_eq_getD_getElem?, hr₁.getElem? (by omega), hp.2]
                rfl
              rw [hsplit, horder, hcount, hcompare, ← hleft, ← hright]
              exact ⟨_, rfl, hl₁.toShows.skip (by omega), hr₁.toShows.skip (by omega)⟩
          | none =>
              rw [hfirst] at hfind
              have hcount : ((t.rest.zip u.rest).take span).length = span := by
                rw [List.length_take, List.length_zip]
                omega
              rw [hsplit, firstOrder_append_of_none hfind.symm, comparedCount_append_of_none hfind.symm,
                hcount, ← Tape.forward_forward, ← Tape.forward_forward]
              exact ih (n - span) (by omega) _ _ _
                ⟨hl₁.toShows.skip (by omega), hr₁.toShows.skip (by omega)⟩

end Window

end TokenDiff
