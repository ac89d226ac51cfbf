/-!
# Snakes and gaps

A `Snake` is a run of matching tokens, `x` to `u` in the old sequence and `y` to `v` in the new one.
Between two consecutive snakes lies a `Gap`, the tokens that match nothing: a `Span` of each side.
-/

namespace TokenDiff

/-- The tokens from `start` on and before `stop`; none if `stop` is not beyond `start`. -/
structure Span where
  start : Nat
  stop : Nat
deriving DecidableEq, Repr

namespace Span

def length (s : Span) : Nat := s.stop - s.start

def isEmpty (s : Span) : Bool := s.stop ≤ s.start

theorem isEmpty_iff {s : Span} : s.isEmpty = true ↔ s.length = 0 := by
  simp only [isEmpty, length, decide_eq_true_eq]
  omega

end Span

/-- A run of matching tokens, `x` to `u` in the old sequence and `y` to `v` in the new one. -/
structure Snake where
  x : Nat
  u : Nat
  y : Nat
  v : Nat
deriving DecidableEq, Repr

namespace Snake

def length (s : Snake) : Nat := s.u - s.x

def length? (s : Snake) : Option Nat := if s.x ≤ s.u then some s.length else none

def isEmpty (s : Snake) : Bool := s.u == s.x

def grow (s : Snake) : Snake := { s with u := s.u + 1, v := s.v + 1 }

def shrink (s : Snake) : Snake := { s with x := s.x + 1, y := s.y + 1 }

end Snake

inductive GapKind where
  | add
  | delete
  | change
deriving DecidableEq, Repr

/-- The unmatched tokens between two snakes. -/
structure Gap where
  old : Span
  new : Span
deriving DecidableEq, Repr

namespace Gap

def between (current next : Snake) : Gap := ⟨⟨current.u, next.x⟩, ⟨current.v, next.y⟩⟩

def kind? (gap : Gap) : Option GapKind :=
  match gap.old.isEmpty, gap.new.isEmpty with
  | true, true => none
  | true, false => some .add
  | false, true => some .delete
  | false, false => some .change

theorem kind?_eq_none_iff {gap : Gap} :
    gap.kind? = none ↔ gap.old.length = 0 ∧ gap.new.length = 0 := by
  rw [← Span.isEmpty_iff, ← Span.isEmpty_iff]
  unfold kind?
  cases gap.old.isEmpty <;> cases gap.new.isEmpty <;> simp

end Gap

end TokenDiff
