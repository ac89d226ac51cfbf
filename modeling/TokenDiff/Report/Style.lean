import TokenDiff.Flags
import TokenDiff.Report.Hunk

/-!
# The styles of a report

Each style of report is a function from a script to a list of pieces. The edit commands of the normal
style number the lines of both sides from one, with a range where an edit has more than one line; on a
side without lines they name the line before the edit. The unified and context styles print hunks with
their context, the first with both sides interleaved, the second with one after the other. The `rcs`
style is an edit script for machines, and the `html` style is the whole text of both sides with the
differences in colours.
-/

namespace TokenDiff

def lineRange (s : Span) : String :=
  let first := if s.isEmpty then s.start else s.start + 1
  if first < s.stop then s!"{first},{s.stop}" else s!"{first}"

def GapKind.letter : GapKind → String
  | .add => "a"
  | .delete => "d"
  | .change => "c"

def normalStep (step : Step) : List Piece :=
  let gap := Gap.between step.1 step.2
  match gap.kind? with
  | none => []
  | some kind =>
    [.text (lineRange gap.old ++ kind.letter ++ lineRange gap.new ++ "\n"),
      .marked "< " .old gap.old false] ++
    (if kind = .change then [.text "---\n"] else []) ++
    [.marked "> " .new gap.new false]

/-- The lines of a hunk in the unified style, from token `start` of the old side on. -/
def unifiedLines (start stop : Nat) : List Step → List Piece
  | [] => [.marked " " .old ⟨start, stop⟩ true]
  | (s, t) :: steps =>
    [.marked " " .old ⟨start, s.u⟩ true, .marked "-" .old ⟨s.u, t.x⟩ true,
      .marked "+" .new ⟨s.v, t.y⟩ true] ++ unifiedLines t.x stop steps

def unifiedHunk (extent : Extent) (steps : List Step) : List Piece :=
  let range (s : Span) := s!"{s.start + 1},{s.length}"
  .text s!"@@ -{range extent.old} +{range extent.new} @@\n" ::
    unifiedLines extent.old.start extent.old.stop steps

/-- The lines of one side of a hunk in the context style, from token `start` on. `edits` are the edits
of that side and their marks. Nothing is shown of a side without edits. -/
def contextLines (side : Side) (start stop : Nat) : List (Span × String) → List Piece
  | [] => [.marked "  " side ⟨start, stop⟩ false]
  | (span, mark) :: edits =>
    [.marked "  " side ⟨start, span.start⟩ false, .marked mark side span false] ++
      contextLines side span.stop stop edits

def contextSide (side : Side) (extent : Span) (edits : List (Span × String)) : List Piece :=
  if edits.isEmpty then [] else contextLines side extent.start extent.stop edits

/-- The edits of one side with their marks: one that goes with an edit of the other side is a change. -/
def markedEdits (here there : Gap → Span) (mark : String) (steps : List Step) :
    List (Span × String) :=
  let gaps := steps.map fun (s, t) => Gap.between s t
  (gaps.filter fun gap => !(here gap).isEmpty).map fun gap =>
    (here gap, if (there gap).isEmpty then mark else "! ")

def contextHunk (extent : Extent) (steps : List Step) : List Piece :=
  let range (s : Span) := s!"{s.start + 1},{s.stop}"
  [.text "***************\n", .text s!"*** {range extent.old} ****\n"] ++
    contextSide .old extent.old (markedEdits Gap.old Gap.new "- " steps) ++
    [.text s!"--- {range extent.new} ----\n"] ++
    contextSide .new extent.new (markedEdits Gap.new Gap.old "+ " steps)

/-- A step in the `rcs` style: a command to delete and a command to add, each if there is anything to. -/
def rcsStep (step : Step) : List Piece :=
  let (s, t) := step
  (if s.u < t.x then [.command s!"d{s.u + 1} {t.x - s.u}\n"] else []) ++
    if s.v < t.y then [.command s!"a{t.x} {t.y - s.v}\n", .tokens .new ⟨s.v, t.y⟩] else []

def htmlSnakes : List Snake → List Piece
  | [] => []
  | [s] => [.tokens .old ⟨s.x, s.u⟩]
  | s :: t :: snakes =>
    [.tokens .old ⟨s.x, s.u⟩, .text "<font color=red>", .tokens .old ⟨s.u, t.x⟩,
      .text "</font><font color=blue>", .tokens .new ⟨s.v, t.y⟩, .text "</font>"] ++
      htmlSnakes (t :: snakes)

def Summary.text (t : Summary) : String :=
  s!"add {t.addedChunks} chunks {t.addedLines} lines\n" ++
  s!"deleted {t.deletedChunks} chunks {t.deletedLines} lines\n" ++
  s!"changed {t.changedChunks} chunks {t.changedLinesIn} / {t.changedLinesOut} lines\n"

def Script.report (s : Script) (format : Format) (context : Nat) : List Piece :=
  match format with
  | .normal => s.steps.flatMap normalStep
  | .context => s.renderHunks context contextHunk
  | .unified => s.renderHunks context unifiedHunk
  | .rcs => s.steps.flatMap rcsStep
  | .html => htmlSnakes s.snakes
  | .summary => [.text (Summary.ofScript s).text]

end TokenDiff
