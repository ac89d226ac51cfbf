import TokenDiff.Charset.Text
import TokenDiff.Edit.Snake

/-!
# Pieces of a report

A report is a list of pieces: fixed text, edit commands, and stretches of tokens of one side whose text
is filled in when the report is printed. What a report looks like is thereby settled without reading
any token, by the functions from scripts to lists of pieces; `Printer` fills in the text.
-/

namespace TokenDiff

inductive Side where
  | old
  | new
deriving DecidableEq, Repr

inductive Piece where
  /-- fixed text -/
  | text (s : String)
  /-- an edit command, which the printer counts -/
  | command (s : String)
  /-- the text of some tokens as it is -/
  | tokens (side : Side) (span : Span)
  /-- some tokens, each behind a mark; a note is added if the last one does not end its line -/
  | marked (mark : String) (side : Side) (span : Span) (noted : Bool)
  /-- a place that cannot be printed, since a sum in it is beyond the largest counter -/
  | overflow
deriving DecidableEq, Repr

end TokenDiff
