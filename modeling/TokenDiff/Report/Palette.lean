import TokenDiff.Charset.Text
import TokenDiff.Flags

/-!
# Colours

A printed report is coloured line by line. What a line is shows in its first bytes, and in the context
style also in its last ones; a line that is nothing in particular is copied as it is. The codes are those
of a terminal: one before the text, one after it, and the line feed outside.
-/

namespace TokenDiff

inductive Colour where
  | bold
  | red
  | green
  | yellow
  | cyan
deriving DecidableEq, Repr

def Colour.opening : Colour → List UInt8
  | .bold => utf8Bytes "\x1b[1m"
  | .red => utf8Bytes "\x1b[31m"
  | .green => utf8Bytes "\x1b[32m"
  | .yellow => utf8Bytes "\x1b[33m"
  | .cyan => utf8Bytes "\x1b[36m"

def colourReset : List UInt8 := [27, 91, 48, 109]

/-- A text with a sequence written again after each reset in it. -/
def reopen (opening : List UInt8) : List UInt8 → List UInt8
  | 27 :: 91 :: 48 :: 109 :: text => colourReset ++ opening ++ reopen opening text
  | b :: text => b :: reopen opening text
  | [] => []

def Colour.apply (colour : Colour) (text : List UInt8) : List UInt8 :=
  colour.opening ++ reopen colour.opening text ++ colourReset

inductive Tone where
  | plain
  | hunk
  | removed
  | added
  | changed
deriving DecidableEq, Repr

def Tone.colour? : Tone → Option Colour
  | .plain => none
  | .hunk => some .cyan
  | .removed => some .red
  | .added => some .green
  | .changed => some .yellow

def begins (text : List UInt8) (start : String) : Bool := (utf8Bytes start).isPrefixOf text

def ends (text : List UInt8) (stop : String) : Bool := (utf8Bytes stop).isSuffixOf text

def Format.tone (format : Format) (line : List UInt8) : Tone :=
  match format with
  | .normal =>
    match line with
    | b :: _ =>
      if b = 60 then .removed
      else if b = 62 then .added
      else if 48 ≤ b ∧ b ≤ 57 then .hunk
      else .plain
    | [] => .plain
  | .context =>
    if begins line "***************" || (begins line "*** " && ends line " ****")
        || (begins line "--- " && ends line " ----") then .hunk
    else if begins line "! " then .changed
    else if begins line "- " then .removed
    else if begins line "+ " then .added
    else .plain
  | .unified =>
    if begins line "@@ " then .hunk
    else if begins line "-" then .removed
    else if begins line "+" then .added
    else .plain
  | .rcs | .html | .summary => .plain

def Format.paintLine (format : Format) (line : List UInt8) : List UInt8 :=
  match (format.tone line).colour? with
  | none => line
  | some colour => colour.apply (repairUtf8 line)

/-- The lines of a text and what follows the last line feed, which is left out if it is empty. `line` is
the part of the first line read so far, last byte first. -/
def paintFrom (format : Format) (line : List UInt8) : List UInt8 → List UInt8
  | [] => if line.isEmpty then [] else format.paintLine line.reverse
  | b :: text =>
    if b = 10 then format.paintLine line.reverse ++ 10 :: paintFrom format [] text
    else paintFrom format (b :: line) text

def paint (format : Format) (text : List UInt8) : List UInt8 := paintFrom format [] text

def paintHeader (line : String) : List UInt8 := Colour.bold.apply (utf8Bytes line)

end TokenDiff
