import TokenDiff.Spelling

/-!
# Translating line ends

When text is copied, its line ends can be written as line feeds. A `LineType` says which line ends those are.
-/

namespace TokenDiff

inductive LineType where
  /-- bytes stay as they are -/
  | raw
  /-- a carriage return ends a line -/
  | cr
  /-- a carriage return and a line feed end a line -/
  | crLf
  /-- lines end with a line feed, in a text of the kind before -/
  | lfCrLf
deriving DecidableEq, Repr

instance : Spelled LineType where
  all := [.raw, .cr, .crLf, .lfCrLf]
  name
    | .raw => "raw"
    | .cr => "cr"
    | .crLf => "cr-lf"
    | .lfCrLf => "lf-cr-lf"

namespace LineType

def returnToFeed (b : UInt8) : UInt8 := if b = 13 then 10 else b

end LineType

end TokenDiff
