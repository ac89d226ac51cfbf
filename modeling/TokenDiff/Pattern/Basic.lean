import TokenDiff.Text.LetterCase
import TokenDiff.Text.Ranges
import TokenDiff.Text.WordCharacters

/-!
# Patterns

A pattern is a regular expression with anchors. It is given by what it is made of; how it is written is
the matter of `Pattern.parse?`, and where it matches that of `Pattern.advance`.
-/

namespace TokenDiff

def spaceRanges : List (Nat × Nat) :=
  [(0x9, 0xD), (0x20, 0x20), (0x85, 0x85), (0xA0, 0xA0), (0x1680, 0x1680), (0x2000, 0x200A),
    (0x2028, 0x2029), (0x202F, 0x202F), (0x205F, 0x205F), (0x3000, 0x3000)]

inductive CharSet where
  | none
  | ranges (rs : List (Nat × Nat))
  | union (s t : CharSet)
  | inter (s t : CharSet)
  | diff (s t : CharSet)
  | compl (s : CharSet)
  /-- the characters of a set together with their other cases -/
  | anyCase (s : CharSet)
deriving Repr

namespace CharSet

def contains : CharSet → Char → Bool
  | .none, _ => false
  | .ranges rs, c => inRanges rs c
  | .union s t, c => s.contains c || t.contains c
  | .inter s t, c => s.contains c && t.contains c
  | .diff s t, c => s.contains c && !t.contains c
  | .compl s, c => !s.contains c
  | .anyCase s, c => s.contains c || (otherCases c).any fun n => s.contains (Char.ofNat n)

def single (c : Char) : CharSet := .ranges [(c.toNat, c.toNat)]

def symmDiff (s t : CharSet) : CharSet := .union (.diff s t) (.diff t s)

def word : CharSet := .ranges wordRanges
def digit : CharSet := .ranges digitRanges
def space : CharSet := .ranges spaceRanges

end CharSet

inductive Anchor where
  | textStart
  | textEnd
  | lineStart
  | lineEnd
  | boundary
  | noBoundary
  | wordStart
  | wordEnd
  | notAfterWord
  | notBeforeWord
deriving DecidableEq, Repr

def Anchor.holds (a : Anchor) (before after : Option Char) : Bool :=
  let isWord (c : Option Char) : Bool := c.any CharSet.word.contains
  match a with
  | .textStart => before.isNone
  | .textEnd => after.isNone
  | .lineStart => before.isNone || before == some '\n'
  | .lineEnd => after.isNone || after == some '\n'
  | .boundary => isWord before != isWord after
  | .noBoundary => isWord before == isWord after
  | .wordStart => !isWord before && isWord after
  | .wordEnd => isWord before && !isWord after
  | .notAfterWord => !isWord before
  | .notBeforeWord => !isWord after

inductive Pattern where
  | empty
  | one (set : CharSet)
  | anchor (a : Anchor)
  | seq (p q : Pattern)
  | either (p q : Pattern)
  /-- at least `least` times and, if there is a number `most`, at most that many times -/
  | repeated (p : Pattern) (least : Nat) (most : Option Nat)
deriving Repr

/-- The number of characters and anchors a pattern consists of once its counted repetitions are written
out. -/
def Pattern.size : Pattern → Nat
  | .empty => 0
  | .one _ => 1
  | .anchor _ => 1
  | .seq p q => p.size + q.size
  | .either p q => p.size + q.size
  | .repeated p least most => p.size * (max least (most.getD (least + 1)))

end TokenDiff
