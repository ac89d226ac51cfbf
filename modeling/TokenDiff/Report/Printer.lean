import TokenDiff.Report.Style
import TokenDiff.Token.Equal

/-!
# Printing a report

A printer holds the windows of both sides and fills in the text of the tokens a report names. It goes
through the pieces in order and may fail at any of them; the edit commands written up to there have
been counted. One printer can print several reports, its windows and its count going on.
-/

namespace TokenDiff

structure Printer where
  windows : Window × Window
  /-- the number of edit commands written so far -/
  commands : Nat := 0

abbrev PrintM := EStateM Fault Printer

structure Layout where
  old : Table
  new : Table
  lineType : LineType := .raw

namespace Layout

/-- The text of some tokens of one side, and whether it ends a line. -/
def tokens (layout : Layout) (side : Side) (span : Span) : PrintM (List UInt8 × Bool) := fun printer =>
  let text : PairM (List UInt8 × Bool) :=
    match side with
    | .old => PairM.onLeft (layout.old.dump span.start span.stop layout.lineType)
    | .new => PairM.onRight (layout.new.dump span.start span.stop layout.lineType)
  match text printer.windows with
  | .ok text windows => .ok text { printer with windows }
  | .error fault windows => .error fault { printer with windows }

def missingNewline : String := "\n\\ No newline at end of file\n"

def print (layout : Layout) : Piece → PrintM (List UInt8)
  | .text s => return utf8Bytes s
  | .command s => do
    modify fun printer => { printer with commands := printer.commands + 1 }
    return utf8Bytes s
  | .tokens side span => return (← layout.tokens side span).1
  | .marked mark side span noted => do
    let texts ← (List.range' span.start span.length).mapM fun i => layout.tokens side ⟨i, i + 1⟩
    let (_, ended) := texts.getLastD ([], true)
    let note := if noted && !ended then utf8Bytes missingNewline else []
    return texts.flatMap (fun (text, _) => utf8Bytes mark ++ text) ++ note
  | .overflow => throw .overflow

def printAll (layout : Layout) (pieces : List Piece) : PrintM (List UInt8) :=
  return (← pieces.mapM layout.print).flatten

end Layout

end TokenDiff
