import TokenDiff.Spelling

/-!
# Token policies

A policy says how an input is cut into tokens and which differences between two tokens do not count.
-/

namespace TokenDiff

inductive Policy where
  /-- one token a line, every byte counts -/
  | line
  /-- one token a word, a word ending with a space -/
  | word
  /-- runs of one class of characters -/
  | wordClass
  /-- lines, whichever way they are terminated -/
  | lineEnding
  /-- lines, up to the amount of blank space -/
  | ignoreBlanks
  /-- lines, up to all blank space -/
  | ignoreWhitespace
deriving DecidableEq, Repr

instance : Spelled Policy where
  all := [.line, .word, .wordClass, .lineEnding, .ignoreBlanks, .ignoreWhitespace]
  name
    | .line => "line"
    | .word => "word"
    | .wordClass => "word-class"
    | .lineEnding => "line-ending"
    | .ignoreBlanks => "ignore-blanks"
    | .ignoreWhitespace => "ignore-whitespace"

end TokenDiff
