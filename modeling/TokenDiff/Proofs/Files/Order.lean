import Mathlib.Data.List.Basic
import TokenDiff.Files.Path

/-!
# The order of paths

Parts are ordered strictly, and so are lists of parts: of two paths with different parts one comes before
the other. So what is sorted by paths with different parts is in strictly ascending order
(`Path.pairwise_mergeSort`).
-/

namespace TokenDiff

namespace Part

theorem lt_iff {p q : Part} :
    p < q ↔ p.rank < q.rank ∨ ∃ m n, p = .name m ∧ q = .name n ∧ m.text < n.text := by
  change p.lt q = true ↔ _
  cases p <;> cases q <;> simp [lt, rank]

theorem lt_irrefl (p : Part) : ¬p < p := by
  rw [lt_iff]
  rintro (h | ⟨m, n, rfl, hn, h⟩)
  · exact Nat.lt_irrefl _ h
  · rw [name.inj hn] at h
    exact String.lt_irrefl _ h

theorem lt_trans {p q r : Part} (hpq : p < q) (hqr : q < r) : p < r := by
  rw [lt_iff] at hpq hqr ⊢
  rcases hpq with hpq | ⟨m, n, rfl, rfl, hpq⟩
  · rcases hqr with hqr | ⟨m, n, rfl, rfl, -⟩
    · exact .inl (Nat.lt_trans hpq hqr)
    · exact .inl hpq
  · rcases hqr with hqr | ⟨n', k, hn, rfl, hqr⟩
    · exact .inl hqr
    · rw [← name.inj hn] at hqr
      exact .inr ⟨m, k, rfl, rfl, String.lt_trans hpq hqr⟩

theorem eq_of_not_lt {p q : Part} (hpq : ¬p < q) (hqp : ¬q < p) : p = q := by
  rw [lt_iff, not_or] at hpq hqp
  have hrank : p.rank = q.rank := Nat.le_antisymm (Nat.not_lt.1 hqp.1) (Nat.not_lt.1 hpq.1)
  cases p <;> cases q <;> first | rfl | cases hrank
  case name.name m n =>
    have hmn : ¬m.text < n.text := fun h => hpq.2 ⟨m, n, rfl, rfl, h⟩
    have hnm : ¬n.text < m.text := fun h => hqp.2 ⟨n, m, rfl, rfl, h⟩
    rw [name.injEq, Name.mk.injEq]
    exact String.le_antisymm (String.not_lt.1 hnm) (String.not_lt.1 hmn)

instance : Std.Irrefl (α := Part) (· < ·) := ⟨lt_irrefl⟩

instance : Trans (α := Part) (· < ·) (· < ·) (· < ·) := ⟨lt_trans⟩

instance : Std.Asymm (α := Part) (· < ·) := ⟨fun p _ hpq hqp => lt_irrefl p (lt_trans hpq hqp)⟩

instance : Std.Trichotomous (α := Part) (· < ·) := ⟨fun _ _ => eq_of_not_lt⟩

end Part

namespace Path

variable {p q r : Path}

theorem lt_irrefl (p : Path) : ¬p < p := List.lt_irrefl p.parts

theorem lt_trans (hpq : p < q) (hqr : q < r) : p < r :=
  List.lt_trans (α := Part) hpq hqr

theorem lt_asymm (h : p < q) : ¬q < p := List.lt_asymm (α := Part) h

theorem parts_eq_of_not_lt (hpq : ¬p < q) (hqp : ¬q < p) : p.parts = q.parts :=
  List.le_antisymm (α := Part) hqp hpq

theorem not_lt_trans (hqp : ¬q < p) (hrq : ¬r < q) : ¬r < p := by
  intro hrp
  by_cases hpq : p < q
  · exact hrq (lt_trans hrp hpq)
  · have hparts := parts_eq_of_not_lt hpq hqp
    have hrq' : r.parts < q.parts := hparts ▸ hrp
    exact hrq hrq'

theorem parts_ofNames_injective : Function.Injective fun names => (ofNames names).parts := by
  intro m n h
  simp only [parts_ofNames] at h
  exact List.map_injective_iff.2 (fun _ _ => Part.name.inj) h

theorem pairwise_mergeSort_not_lt {α : Type} (f : α → Path) (l : List α) :
    (l.mergeSort fun a b => !decide (f b < f a)).Pairwise fun a b => ¬f b < f a := by
  have hle (a b : α) : (!decide (f b < f a)) = true ↔ ¬f b < f a := by
    rw [Bool.not_eq_true', decide_eq_false_iff_not]
  refine (List.pairwise_mergeSort (fun a b c hab hbc => ?_) (fun a b => ?_) l).imp fun {a b} h => (hle a b).1 h
  · exact (hle a c).2 (not_lt_trans ((hle a b).1 hab) ((hle b c).1 hbc))
  · rw [Bool.or_eq_true, hle, hle]
    exact Decidable.or_iff_not_imp_left.2 fun h => lt_asymm (Decidable.not_not.1 h)

theorem pairwise_mergeSort {α : Type} {f : α → Path} {l : List α}
    (h : l.Pairwise fun a b => (f a).parts ≠ (f b).parts) :
    (l.mergeSort fun a b => !decide (f b < f a)).Pairwise fun a b => f a < f b := by
  have hne := h.perm (List.mergeSort_perm l fun a b => !decide (f b < f a)).symm fun {a b} h => h.symm
  refine ((pairwise_mergeSort_not_lt f l).and hne).imp fun {a b} h => ?_
  by_contra hlt
  exact h.2 (parts_eq_of_not_lt hlt h.1)

end Path

theorem pairwise_eraseDups {α : Type} [BEq α] [LawfulBEq α] {R : α → α → Prop} :
    ∀ {l : List α}, l.Pairwise R → l.eraseDups.Pairwise fun a b => R a b ∧ a ≠ b
  | [], _ => .nil
  | a :: l, h => by
      have hlength : (l.filter fun b => !b == a).length < l.length + 1 :=
        Nat.lt_succ_of_le (List.length_filter_le _ _)
      obtain ⟨hhead, htail⟩ := List.pairwise_cons.1 h
      rw [List.eraseDups_cons, List.pairwise_cons]
      refine ⟨fun b hb => ?_, pairwise_eraseDups (htail.filter _)⟩
      rw [List.mem_eraseDups, List.mem_filter, Bool.not_eq_true'] at hb
      exact ⟨hhead b hb.1, (ne_of_beq_false hb.2).symm⟩
termination_by l => l.length

end TokenDiff
