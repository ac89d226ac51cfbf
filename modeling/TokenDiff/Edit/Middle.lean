/-!
# The middle snake of a board

A `Board` is a rectangle of the edit graph by itself: `width` tokens across, `height` tokens down, and a
relation that says which pairs may match. A path runs from the corner `(0, 0)` to the far corner, one
step right for a deleted token, one step down for an inserted one, and diagonally along a pair that
matches. Coordinates are those of the board and not of the sequences it is cut from, so a diagonal is
the number `x - y`, and the far corner lies on the diagonal `width - height`.

The board is searched from both corners at once. After `d` rounds the forward frontier holds, for each
diagonal, the furthest point that a path with `d` single steps reaches, and the backward frontier the
same from the far corner. The first snake at which the two meet lies on a path with as few single steps
as any. If they have not met after the allowed rounds, the middle of the board is taken instead.

A frontier is indexed by diagonals from `-bound` to `bound`, and its two operations ask for a proof that
the diagonal is among them. So no diagonal is ever looked up outside a frontier.
-/

namespace TokenDiff

/-- The furthest column reached on each diagonal from `-bound` to `bound`. -/
structure Frontier (bound : Nat) where
  cells : Vector Int (2 * bound + 1)

namespace Frontier

def start (bound : Nat) : Frontier bound := ⟨Vector.replicate (2 * bound + 1) 0⟩

def get {bound : Nat} (f : Frontier bound) (k : Int) (h : -(bound : Int) ≤ k ∧ k ≤ bound) : Int :=
  have : (k + bound).toNat < 2 * bound + 1 := by omega
  f.cells[(k + bound).toNat]

def set {bound : Nat} (f : Frontier bound) (k x : Int)
    (h : -(bound : Int) ≤ k ∧ k ≤ bound) : Frontier bound :=
  ⟨f.cells.set (k + bound).toNat x (by omega)⟩

theorem get_set_self {bound : Nat} (f : Frontier bound) (k x : Int)
    (h : -(bound : Int) ≤ k ∧ k ≤ bound) : (f.set k x h).get k h = x := by
  simp [get, set]

theorem get_set_of_ne {bound : Nat} (f : Frontier bound) {j k : Int} (x : Int)
    (hj : -(bound : Int) ≤ j ∧ j ≤ bound) (hk : -(bound : Int) ≤ k ∧ k ≤ bound) (h : j ≠ k) :
    (f.set k x hk).get j hj = f.get j hj := by
  simp only [get, set]
  rw [Vector.getElem_set_ne]
  omega

end Frontier

structure Frontiers (bound : Nat) where
  forward : Frontier bound
  backward : Frontier bound

def Frontiers.start (bound : Nat) : Frontiers bound := ⟨Frontier.start bound, Frontier.start bound⟩

/-- A run of pairs on one diagonal, from `(x, y)` to `(u, v)`, in the coordinates of a board. Points on
a frontier may lie off the board, so the coordinates are integers. -/
structure Run where
  x : Int
  u : Int
  y : Int
  v : Int
deriving DecidableEq, Repr

structure Board where
  width : Nat
  height : Nat
  likely : Nat → Nat → Bool
  width_pos : 0 < width
  height_pos : 0 < height

/-- The lowest diagonal that `d` single steps reach on a board of that height. -/
def lowest (d height : Int) : Int := if d ≤ height then -d else d - 2 * height

/-- The highest diagonal that `d` single steps reach on a board of that width. -/
def highest (d width : Int) : Int := if d ≤ width then d else 2 * width - d

theorem neg_le_lowest (d height : Int) : -d ≤ lowest d height := by
  unfold lowest
  split <;> omega

theorem lowest_lt {d height : Int} (hd : 0 < d) (h : 0 < height) : lowest d height < d := by
  unfold lowest
  split <;> omega

theorem highest_le (d width : Int) : highest d width ≤ d := by
  unfold highest
  split <;> omega

/-- How a sweep over the diagonals of one round ends: the frontiers have met along a run, or all
diagonals have been moved on. -/
inductive Sweep (bound : Nat) where
  | met (run : Run) (frontier : Frontier bound)
  | moved (frontier : Frontier bound)

namespace Board

theorem lowest_lt (b : Board) (d : Nat) (hd : 0 < d) : lowest d b.height < d :=
  TokenDiff.lowest_lt (by omega) (by have := b.height_pos; omega)

/-- The diagonal of the far corner. -/
def delta (b : Board) : Int := b.width - b.height

/-- Whether the pair at a point may match. -/
def pair (b : Board) (x y : Int) : Bool := 0 ≤ x && 0 ≤ y && b.likely x.toNat y.toNat

/-- The column reached from `(x, y)` along matching pairs towards the far corner. -/
def advance (b : Board) (x y : Int) : Int :=
  if x < b.width ∧ y < b.height ∧ b.pair x y = true then b.advance (x + 1) (y + 1) else x
termination_by (b.width - x).toNat

/-- The column reached from `(x, y)` along matching pairs towards the first corner. -/
def retreat (b : Board) (x y : Int) : Int :=
  if 0 < x ∧ 0 < y ∧ b.pair (x - 1) (y - 1) = true then b.retreat (x - 1) (y - 1) else x
termination_by x.toNat

variable {bound : Nat}

/-- The first point of the forward search on diagonal `k` in a round: one step down from the diagonal
above or one step right from the diagonal below, whichever is further. -/
def enter (f : Frontier bound) (lo hi k : Int) (hlo : -(bound : Int) ≤ lo ∧ lo < bound)
    (hhi : hi ≤ bound) (hk : lo ≤ k ∧ k ≤ hi) : Int :=
  if low : k = lo then f.get (k + 1) (by omega)
  else if high : k = hi then f.get (k - 1) (by omega) + 1
  else if f.get (k + 1) (by omega) > f.get (k - 1) (by omega) then f.get (k + 1) (by omega)
  else f.get (k - 1) (by omega) + 1

/-- The first point of the backward search on diagonal `k` in a round, `k` counted from the diagonal of
the far corner: one step up from the diagonal below or one step left from the diagonal above. -/
def enterBack (f : Frontier bound) (lo hi k : Int) (hlo : -(bound : Int) ≤ lo)
    (hhi : hi ≤ bound ∧ -(bound : Int) < hi) (hk : lo ≤ k ∧ k ≤ hi) : Int :=
  if high : k = hi then f.get (k - 1) (by omega)
  else if low : k = lo then f.get (k + 1) (by omega) - 1
  else if f.get (k - 1) (by omega) < f.get (k + 1) (by omega) then f.get (k - 1) (by omega)
  else f.get (k + 1) (by omega) - 1

/-- Whether the forward search, having come to column `u` of diagonal `k` in round `d`, has met the
backward search of the round before. On a board whose far corner has an odd diagonal this is where
the two meet first. -/
def meets (b : Board) (backward : Frontier bound) (d : Nat) (hd : d ≤ bound) (k u : Int) : Bool :=
  if h : b.delta % 2 ≠ 0 ∧
      lowest (d - 1) b.height ≤ b.delta - k ∧ b.delta - k ≤ highest (d - 1) b.width then
    have low := neg_le_lowest (d - 1) b.height
    have high := highest_le (d - 1) b.width
    decide (u ≥ backward.get (k - b.delta) (by omega))
  else false

/-- Whether the backward search, having come to column `x` of diagonal `k` in round `d`, has met the
forward search of the same round. -/
def meetsBack (b : Board) (forward : Frontier bound) (d : Nat) (hd : d ≤ bound) (k x : Int) : Bool :=
  if h : b.delta % 2 = 0 ∧
      lowest d b.height ≤ k + b.delta ∧ k + b.delta ≤ highest d b.width then
    have low := neg_le_lowest d b.height
    have high := highest_le d b.width
    decide (x ≤ forward.get (k + b.delta) (by omega))
  else false

/-- Round `d` of the forward search, from diagonal `k` upwards. -/
def sweep (b : Board) (backward : Frontier bound) (d : Nat) (hd : 0 < d ∧ d ≤ bound) (k : Int)
    (hk : lowest d b.height ≤ k) (forward : Frontier bound) : Sweep bound :=
  if h : k ≤ highest d b.width then
    have low := neg_le_lowest d b.height
    have top := b.lowest_lt d hd.1
    have high := highest_le d b.width
    let x := enter forward (lowest d b.height) (highest d b.width) k (by omega) (by omega) ⟨hk, h⟩
    let u := b.advance x (x - k)
    if b.meets backward d hd.2 k u then .met ⟨x, u, x - k, u - k⟩ forward
    else b.sweep backward d hd (k + 2) (by omega) (forward.set k u (by omega))
  else .moved forward
termination_by (highest d b.width + 1 - k).toNat

/-- Round `d` of the backward search, from diagonal `k` upwards. -/
def sweepBack (b : Board) (forward : Frontier bound) (d : Nat) (hd : 0 < d ∧ d ≤ bound) (k : Int)
    (hk : -highest d b.width ≤ k) (backward : Frontier bound) : Sweep bound :=
  if h : k ≤ -lowest d b.height then
    have low := neg_le_lowest d b.height
    have top := b.lowest_lt d hd.1
    have high := highest_le d b.width
    let u := enterBack backward (-highest d b.width) (-lowest d b.height) k (by omega) (by omega)
      ⟨hk, h⟩
    let x := b.retreat u (u - k - b.delta)
    if b.meetsBack forward d hd.2 k x then
      .met ⟨x, u, x - k - b.delta, u - k - b.delta⟩ backward
    else b.sweepBack forward d hd (k + 2) (by omega) (backward.set k x (by omega))
  else .moved backward
termination_by (-lowest d b.height + 1 - k).toNat

/-- The run through the middle of the board, for searches that have not met. -/
def centre (b : Board) : Run :=
  let midX : Int := b.width / 2
  let midY : Int := b.height / 2
  let x := b.retreat midX midY
  let u := b.advance midX midY
  ⟨x, u, midY - (midX - x), midY + (u - midX)⟩

/-- The rounds from `d` on, each a forward and a backward sweep. -/
def rounds (b : Board) (d : Nat) (hd : 0 < d) (f : Frontiers bound) : Run × Frontiers bound :=
  if h : d ≤ bound then
    match b.sweep f.backward d ⟨hd, h⟩ (lowest d b.height) (Int.le_refl _) f.forward with
    | .met run forward => (run, { f with forward })
    | .moved forward =>
      match b.sweepBack forward d ⟨hd, h⟩ (-highest d b.width) (Int.le_refl _) f.backward with
      | .met run backward => (run, ⟨forward, backward⟩)
      | .moved backward => b.rounds (d + 1) (by omega) ⟨forward, backward⟩
  else (b.centre, f)
termination_by bound + 1 - d

/-- A snake to divide the board at, found with the given frontiers. Pairs that match at the first corner
or at the far corner are such a snake by themselves. -/
def middle (b : Board) (f : Frontiers bound) : Run × Frontiers bound :=
  let forward := f.forward.set 0 0 (by omega)
  let u := b.advance 0 0
  if 0 < u then (⟨0, u, 0, u⟩, { f with forward })
  else
    let backward := f.backward.set 0 b.width (by omega)
    let x := b.retreat b.width b.height
    if x < b.width then (⟨x, b.width, x - b.delta, b.height⟩, ⟨forward, backward⟩)
    else b.rounds 1 (by omega) ⟨forward, backward⟩

end Board

end TokenDiff
