import TokenDiff.Files.Path
import TokenDiff.Report.Palette

/-!
# Changes between two trees

A change is a file that is there in one tree only, or in both with different contents, or under another
path in the new tree. It is listed under its path in the new tree if it has one there.
-/

namespace TokenDiff

inductive ChangeKind where
  | added
  | deleted
  | modified
  | renamed
deriving DecidableEq, Repr

namespace ChangeKind

def letter : ChangeKind → Char
  | .added => 'A'
  | .deleted => 'D'
  | .modified => 'M'
  | .renamed => 'R'

def ofLetter? : Char → Option ChangeKind
  | 'A' => some .added
  | 'D' => some .deleted
  | 'M' => some .modified
  | 'R' => some .renamed
  | _ => none

def colour : ChangeKind → Colour
  | .added => .green
  | .deleted => .red
  | .modified => .yellow
  | .renamed => .cyan

end ChangeKind

structure KindSet where
  added : Bool := false
  deleted : Bool := false
  modified : Bool := false
  renamed : Bool := false
deriving DecidableEq, Repr

namespace KindSet

def all : KindSet := ⟨true, true, true, true⟩

def contains (s : KindSet) : ChangeKind → Bool
  | .added => s.added
  | .deleted => s.deleted
  | .modified => s.modified
  | .renamed => s.renamed

def insert (s : KindSet) : ChangeKind → KindSet
  | .added => { s with added := true }
  | .deleted => { s with deleted := true }
  | .modified => { s with modified := true }
  | .renamed => { s with renamed := true }

def ofLetters? (text : String) : Option KindSet :=
  text.toList.foldlM (fun s c => (ChangeKind.ofLetter? c).map s.insert) {}

/-- The set whose members are the bits of a number, in the order of the kinds. Further bits do not
count. -/
def ofBits (bits : Nat) : KindSet :=
  ⟨bits.testBit 0, bits.testBit 1, bits.testBit 2, bits.testBit 3⟩

def toBits (s : KindSet) : Nat :=
  s.added.toNat + 2 * s.deleted.toNat + 4 * s.modified.toNat + 8 * s.renamed.toNat

end KindSet

inductive Change where
  | modified (path : Path)
  | added (path : Path)
  | deleted (path : Path)
  | renamed (source target : Path)
deriving DecidableEq, Repr

namespace Change

def kind : Change → ChangeKind
  | .modified _ => .modified
  | .added _ => .added
  | .deleted _ => .deleted
  | .renamed .. => .renamed

def path : Change → Path
  | .modified p | .added p | .deleted p => p
  | .renamed _ target => target

def code (c : Change) : String := c.kind.letter.toString

def describe : Change → String
  | .renamed source target => s!"{source.text} -> {target.text}"
  | c => c.path.text

def text (c : Change) : String := s!"{c.code} {c.describe}"

def coloured (c : Change) : List UInt8 :=
  c.kind.colour.apply (utf8Bytes c.code) ++ utf8Bytes s!" {c.describe}"

def line (c : Change) (colours : Bool) : List UInt8 :=
  (if colours then c.coloured else utf8Bytes c.text) ++ [10]

end Change

end TokenDiff
