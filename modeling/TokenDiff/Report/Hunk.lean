import TokenDiff.Edit.Script
import TokenDiff.Report.Piece
import TokenDiff.Word

/-!
# Hunks

The reports with context show the edits of a script in hunks. A hunk is a list of consecutive steps of
the script, a step being an edit with the snakes before and after it. Two edits share a hunk if the snake
between them is so short that all of it would be shown as their context.

The width of the context is any 64-bit counter. Before a line of a hunk is printed, the width has been added to
the places where its snakes start, and a hunk with a sum beyond the largest counter is not printed.
-/

namespace TokenDiff

abbrev Step := Snake × Snake

/-- Whether a snake is shown as a whole between two edits, by the context after the one and before the
other. -/
def Snake.isBridged (context : Nat) (s : Snake) : Bool := s.u ≤ s.x + 2 * context

def Script.hunks (s : Script) (context : Nat) : List (List Step) :=
  s.steps.splitBy fun step _ => step.2.isBridged context

/-- Whether the sums that make a hunk are counters. A snake with twice the width beyond the largest counter is
always bridged, so there is none but between the edits of a hunk. -/
def sumsFit (context : Nat) (steps : List Step) : Bool :=
  (steps.dropLast.all fun step => step.2.x + 2 * context < Word.modulus) &&
    steps.getLast?.all fun step =>
      step.2.x + context < Word.modulus && step.2.y + context < Word.modulus

/-- The tokens of both sides that a hunk covers, its context included. -/
structure Extent where
  old : Span
  new : Span
deriving DecidableEq, Repr

/-- What a hunk of a script with the given token counts covers, from the snake before its first edit to
the snake after its last. -/
def Extent.around (context oldCount newCount : Nat) (first last : Snake) : Extent where
  old := ⟨first.u - context, min (last.x + context) oldCount⟩
  new := ⟨first.v - context, min (last.y + context) newCount⟩

/-- The pieces of every hunk of a script, made from what it covers and its steps. -/
def Script.renderHunks (s : Script) (context : Nat) (render : Extent → List Step → List Piece) :
    List Piece :=
  (s.hunks context).flatMap fun steps =>
    match steps.head?, steps.getLast? with
    | some first, some last =>
      if sumsFit context steps then
        render (Extent.around context s.oldCount s.newCount first.1 last.2) steps
      else [.overflow]
    | _, _ => []

end TokenDiff
