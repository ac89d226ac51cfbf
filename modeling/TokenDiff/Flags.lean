import TokenDiff.Token.Policy
import TokenDiff.Word

/-!
# Comparison flags

The settings a comparison is asked for, and the compact string they can be written in. Each character
of the string is read on its own: a letter may set the style of the report, the token policy or both,
the digits spell the width of the context wherever they stand, and the letters of the comparison grid
combine. A later letter wins over an earlier one, and a character without a meaning changes nothing, so
`Flags.read` adds one character to the settings and `Flags.parse` adds them all from the left.
-/

namespace TokenDiff

inductive Format where
  | normal
  | context
  | unified
  | rcs
  | html
  | summary
deriving DecidableEq, Repr

instance : Spelled Format where
  all := [.normal, .context, .unified, .rcs, .html, .summary]
  name
    | .normal => "normal"
    | .context => "context"
    | .unified => "unified"
    | .rcs => "rcs"
    | .html => "html"
    | .summary => "summary"

/-- The comparison grid of a caller that merges. Comparisons of two inputs carry it along unused. -/
inductive Grid where
  | optimal
  | guarded
  | twoWay
  | diff3
  | guardedDiff3
deriving DecidableEq, Repr

instance : Spelled Grid where
  all := [.optimal, .guarded, .twoWay, .diff3, .guardedDiff3]
  name
    | .optimal => "optimal"
    | .guarded => "guarded"
    | .twoWay => "two-way"
    | .diff3 => "diff3"
    | .guardedDiff3 => "guarded-diff3"

def Format.ofLetter? : Char → Option Format
  | 'c' | 'C' => some .context
  | 'u' | 'U' => some .unified
  | 'n' => some .rcs
  | 's' => some .summary
  | 'h' | 'H' | 'v' => some .html
  | _ => none

def Policy.ofLetter? : Char → Option Policy
  | 'l' => some .lineEnding
  | 'b' => some .ignoreBlanks
  | 'w' => some .ignoreWhitespace
  | 'h' | 'H' => some .word
  | 'v' => some .wordClass
  | _ => none

/-- The grid after one more letter: guarding and three-way comparison combine in either order, and
the two-way letter replaces both. -/
def Grid.read : Grid → Char → Grid
  | .diff3, 'g' | .diff3, 'G' | .guardedDiff3, 'g' | .guardedDiff3, 'G' => .guardedDiff3
  | _, 'g' | _, 'G' => .guarded
  | .guarded, 'x' | .guarded, 'X' | .guardedDiff3, 'x' | .guardedDiff3, 'X' => .guardedDiff3
  | _, 'x' | _, 'X' => .diff3
  | _, 't' | _, 'T' => .twoWay
  | grid, _ => grid

/-- The context width after one more character: a digit is appended to the decimal number read so far,
whose product and sum both stop at the largest counter. -/
def readWidth (width : Option Nat) (c : Char) : Option Nat :=
  if c.isDigit then some (Word.clamp (Word.clamp (width.getD 0 * 10) + (c.toNat - '0'.toNat))) else width

structure Flags where
  format : Format := .normal
  policy : Policy := .line
  grid : Grid := .optimal
  /-- the requested width of the context, if any -/
  context : Option Nat := none
deriving DecidableEq, Repr

namespace Flags

def read (flags : Flags) (c : Char) : Flags where
  format := (Format.ofLetter? c).getD flags.format
  policy := (Policy.ofLetter? c).getD flags.policy
  grid := flags.grid.read c
  context := readWidth flags.context c

def parse (text : String) : Flags := text.toList.foldl read {}

def contextLines (flags : Flags) : Nat := flags.context.getD 3

/-- The settings with a width given by a signed number; a negative one withdraws the request. -/
def withContext (flags : Flags) (width : Int) : Flags :=
  { flags with context := if width < 0 then none else some width.toNat }

end Flags

end TokenDiff
