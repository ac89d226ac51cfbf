import TokenDiff.Fault
import TokenDiff.Token.Policy

/-!
# Token tables

A `Table` says where the tokens of an input start and what their hashes are. It ends with an entry for
the end of the last token, so token `i` lies between the offsets of entries `i` and `i + 1`. The hash of
a token is a rolling hash of the bytes that count under the policy.
-/

namespace TokenDiff

def isNewline (b : UInt8) : Bool := b == 13 || b == 10

def isBlank (b : UInt8) : Bool := b == 32 || b == 9

def isBlankOrNewline (b : UInt8) : Bool := isBlank b || isNewline b

def hashByte (hash : UInt32) (b : UInt8) : UInt32 := hash * 293 + b.toUInt32

def hashBytes (bytes : List UInt8) : UInt32 := bytes.foldl hashByte 0

structure Entry where
  hash : UInt32
  offset : Nat
deriving DecidableEq, Repr

structure Table where
  policy : Policy
  entries : Array Entry
deriving DecidableEq, Repr

namespace Table

/-- The number of tokens: one less than the number of entries. -/
def count (t : Table) : Nat := t.entries.size - 1

def tokens (t : Table) : List Entry := (t.entries.extract 0 t.count).toList

/-- The hash of a token; the end counts as a token of hash zero. -/
def hash? (t : Table) (i : Nat) : Option UInt32 := t.entries[i]?.map Entry.hash

def offset? (t : Table) (i : Nat) : Option Nat := t.entries[i]?.map Entry.offset

def length? (t : Table) (i : Nat) : Option Nat := do
  let start ← t.offset? i
  let stop ← t.offset? (i + 1)
  return stop - start

def offset (t : Table) (i : Nat) : Except Fault Nat :=
  match t.offset? i with
  | some k => .ok k
  | none => .error (.noToken i)

def length (t : Table) (i : Nat) : Except Fault Nat :=
  match t.length? i with
  | some n => .ok n
  | none => .error (.noToken i)

end Table

end TokenDiff
