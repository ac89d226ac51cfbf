import TokenDiff.Edit.Middle
import TokenDiff.Edit.Snake
import TokenDiff.Edit.Tuning
import TokenDiff.Fault

/-!
# Edit scripts

The edit script of two token sequences is the list of snakes that is kept, in order; the gaps between
them are the edits. It is found in three steps.

* `Comparison.search` divides the edit graph. It finds a snake of a rectangle with `Board.middle` and
  goes on with the rectangles before and after it. Both are checked against the rectangle first: one
  that is not smaller would never end, and the search stops as stalled instead. So the recursion is on
  the size of the rectangle.
* The search looks at hashes only. `Comparison.confirm` asks about every pair of a snake once more and
  keeps the runs of pairs that are equal.
* `bracket` makes the list span both sequences, and `Comparison.slide` moves every snake as far forward
  as its tokens allow, into the snake after it.

How two tokens are compared is a parameter, a `Comparison` over a state `σ`: the comparison may read
from somewhere, and it may fail.
-/

namespace TokenDiff

/-- Two token sequences that can be compared: their lengths, which pairs may match, and the exact answer
for one pair. -/
structure Comparison (σ : Type) where
  oldCount : Nat
  newCount : Nat
  likely : Nat → Nat → Bool
  equal : Nat → Nat → EStateM Fault σ Bool

structure Rect where
  startX : Nat
  startY : Nat
  endX : Nat
  endY : Nat
deriving DecidableEq, Repr

namespace Rect

def isOpen (r : Rect) : Prop := r.startX < r.endX ∧ r.startY < r.endY

instance (r : Rect) : Decidable r.isOpen := inferInstanceAs (Decidable (_ ∧ _))

/-- The number of tokens on the two sides, taken as zero where there is nothing to search. -/
def extent (r : Rect) : Nat :=
  if r.isOpen then (r.endX - r.startX) + (r.endY - r.startY) else 0

def stalled (r : Rect) : Fault := .stalled r.startX r.startY r.endX r.endY

def before (r : Rect) (s : Snake) : Rect := { r with endX := s.x, endY := s.y }

def after (r : Rect) (s : Snake) : Rect := { r with startX := s.u, startY := s.v }

/-- A run of the rectangle's board, in the coordinates of the sequences. -/
def place (r : Rect) (run : Run) : Snake :=
  ⟨(r.startX + run.x).toNat, (r.startX + run.u).toNat,
    (r.startY + run.y).toNat, (r.startY + run.v).toNat⟩

end Rect

/-- The runs of `true` in a list, as snakes on the diagonal through `(x, y)`. The first `len` pairs from
there on are already known to be a run. -/
def runsFrom (x y len : Nat) : List Bool → List Snake
  | [] => if len = 0 then [] else [⟨x, x + len, y, y + len⟩]
  | true :: marks => runsFrom x y (len + 1) marks
  | false :: marks =>
    (if len = 0 then [] else [⟨x, x + len, y, y + len⟩]) ++
      runsFrom (x + len + 1) (y + len + 1) 0 marks

/-- The list with an empty snake at a corner that its first or last snake does not reach. -/
def bracket (snakes : List Snake) (oldCount newCount : Nat) : List Snake :=
  let opened :=
    match snakes with
    | ⟨0, _, 0, _⟩ :: _ => snakes
    | _ => ⟨0, 0, 0, 0⟩ :: snakes
  match opened.getLast? with
  | some last =>
    if last.u < oldCount ∨ last.v < newCount then
      opened ++ [⟨oldCount, oldCount, newCount, newCount⟩]
    else opened
  | none => opened

namespace Comparison

variable {σ : Type} (c : Comparison σ)

def board (r : Rect) (h : r.isOpen) : Board where
  width := r.endX - r.startX
  height := r.endY - r.startY
  likely x y := c.likely (r.startX + x) (r.startY + y)
  width_pos := by have := h.1; omega
  height_pos := by have := h.2; omega

/-- The runs of a snake whose pairs are equal. Each pair is asked about once, in order. -/
def confirm (s : Snake) : EStateM Fault σ (List Snake) := do
  let marks ← (List.range (s.u - s.x)).mapM fun k => c.equal (s.x + k) (s.y + k)
  return runsFrom s.x s.y 0 marks

def divide {bound : Nat} (r : Rect) (h : r.isOpen) (f : Frontiers bound) :
    Snake × Frontiers bound :=
  let (run, f) := (c.board r h).middle f
  (r.place run, f)

/-- The confirmed snakes of a rectangle, and the frontiers for the next search. -/
def search {bound : Nat} (c : Comparison σ) (r : Rect) (f : Frontiers bound) :
    EStateM Fault σ (List Snake × Frontiers bound) :=
  if h : r.isOpen then
    let (s, f) := c.divide r h f
    if r.extent ≤ (r.before s).extent ∨ r.extent ≤ (r.after s).extent then throw r.stalled
    else do
      let (first, f) ← c.search (r.before s) f
      let own ← c.confirm s
      let (last, f) ← c.search (r.after s) f
      return (first ++ own ++ last, f)
  else pure ([], f)
termination_by r.extent

/-- The confirmed snakes of both sequences. Past the sum of the two lengths a round has no diagonal left,
so no more rounds than that are allowed for. -/
def snakes (maxDepth : Nat) : EStateM Fault σ (List Snake) := do
  let bound := min maxDepth (c.oldCount + c.newCount)
  let (found, _) ← c.search ⟨0, 0, c.oldCount, c.newCount⟩ (Frontiers.start bound)
  return found

/-- Whether the tokens right after a snake are equal; false at the end of a sequence. -/
def mayGrow (s : Snake) : EStateM Fault σ Bool :=
  if s.u < c.oldCount ∧ s.v < c.newCount then c.equal s.u s.v else pure false

/-- Slides `current` forward for as long as the tokens after it are equal, into `next`, and then the
snakes after it. A snake that is used up in this way is left out unless it is the last one. -/
def slide (c : Comparison σ) (current next : Snake) (rest : List Snake) :
    EStateM Fault σ (List Snake) := do
  let equal ← c.mayGrow current
  if equal ∧ current.u < c.oldCount then
    if current.u + 1 > next.x ∨ current.v + 1 > next.y then
      match rest with
      | [] => c.slide current.grow next.shrink []
      | follower :: rest =>
        if next.shrink.x = next.shrink.u then c.slide current.grow follower rest
        else c.slide current.grow next.shrink (follower :: rest)
    else c.slide current.grow next rest
  else
    match rest with
    | [] => return [current, next]
    | follower :: rest => return current :: (← c.slide next follower rest)
termination_by (rest.length, c.oldCount - current.u)
decreasing_by
  all_goals simp_wf
  all_goals simp [Prod.lex_def, Snake.grow]
  all_goals omega

def bias : List Snake → EStateM Fault σ (List Snake)
  | [] => pure []
  | [s] => pure [s]
  | current :: next :: rest => c.slide current next rest

end Comparison

structure Script where
  snakes : List Snake
  oldCount : Nat
  newCount : Nat
  maxDepth : Nat
deriving DecidableEq, Repr

def Comparison.script {σ : Type} (c : Comparison σ) (fast : Bool) (tuning : Tuning) :
    EStateM Fault σ Script := do
  let maxDepth := tuning.maxDepth c.oldCount c.newCount fast
  let found ← c.snakes maxDepth
  let snakes ← c.bias (bracket found c.oldCount c.newCount)
  return ⟨snakes, c.oldCount, c.newCount, maxDepth⟩

namespace Script

def isIdentical (s : Script) : Bool := s.snakes.length == 1

def steps (s : Script) : List (Snake × Snake) := s.snakes.zip s.snakes.tail

def gaps (s : Script) : List Gap := s.steps.map fun (a, b) => Gap.between a b

end Script

structure Summary where
  addedChunks : Nat := 0
  addedLines : Nat := 0
  deletedChunks : Nat := 0
  deletedLines : Nat := 0
  changedChunks : Nat := 0
  changedLinesIn : Nat := 0
  changedLinesOut : Nat := 0
deriving DecidableEq, Repr

namespace Summary

def count (t : Summary) (gap : Gap) : Summary :=
  match gap.kind? with
  | some .change =>
    { t with
      changedChunks := t.changedChunks + 1
      changedLinesIn := t.changedLinesIn + gap.old.length
      changedLinesOut := t.changedLinesOut + gap.new.length }
  | some .add =>
    { t with addedChunks := t.addedChunks + 1, addedLines := t.addedLines + gap.new.length }
  | some .delete =>
    { t with
      deletedChunks := t.deletedChunks + 1
      deletedLines := t.deletedLines + gap.old.length }
  | none => t

def ofScript (s : Script) : Summary := s.gaps.foldl count {}

end Summary

end TokenDiff
