import TokenDiff.Edit.Script
import TokenDiff.Token.Sequence

/-!
# Exact comparison of tokens

Two tokens with the same hash are compared by reading both of them again. The byte policies compare the
text as it is. The others walk through the two tokens side by side; a `Walk` is the byte a walk stands at
and the number of bytes left from there on, that byte included. It moves on only while bytes are left, so
the walks end.
-/

namespace TokenDiff

open PairM

structure Walk where
  left : Nat
  byte : UInt8

namespace Walk

def start (left : Nat) : WindowM Walk := do
  if left = 0 then return ⟨0, 0⟩ else return ⟨left, ← Window.next⟩

def step (w : Walk) : WindowM {v : Walk // v.left = w.left - 1} := do
  if w.left ≤ 1 then return ⟨⟨w.left - 1, w.byte⟩, rfl⟩
  else
    let byte ← Window.next
    return ⟨⟨w.left - 1, byte⟩, rfl⟩

def skip (p : UInt8 → Bool) (w : Walk) : WindowM {v : Walk // v.left ≤ w.left} := do
  if 0 < w.left ∧ p w.byte then
    let ⟨v, hv⟩ ← w.step
    let ⟨z, hz⟩ ← skip p v
    return ⟨z, by omega⟩
  else return ⟨w, Nat.le_refl _⟩
termination_by w.left

end Walk

/-- Whether what is left of two tokens can be skipped. -/
def skipBoth (p : UInt8 → Bool) (v w : Walk) : PairM Bool := do
  let ⟨v, _⟩ ← onLeft (v.skip p)
  let ⟨w, _⟩ ← onRight (w.skip p)
  return v.left == 0 && w.left == 0

/-- Walks on while the bytes are equal. A blank or line end on both sides stands for any run of blanks
from there on, and what is left at the end has to be blanks and line ends. -/
def walkBlanks (v w : Walk) : PairM Bool := do
  if v.left = 0 ∨ w.left = 0 then skipBoth isBlankOrNewline v w
  else
    let both := isBlankOrNewline v.byte && isBlankOrNewline w.byte
    let ⟨v', _⟩ ← onLeft (v.skip fun b => both && isBlank b)
    let ⟨w', _⟩ ← onRight (w.skip fun b => both && isBlank b)
    if 0 < v'.left ∧ 0 < w'.left ∧ v'.byte = w'.byte then
      let ⟨v'', _⟩ ← onLeft v'.step
      let ⟨w'', _⟩ ← onRight w'.step
      walkBlanks v'' w''
    else skipBoth isBlankOrNewline v' w'
termination_by v.left

/-- Walks on while the bytes that are not blank are equal. What is left at the end has to be blanks and
line ends. -/
def walkWhitespace (v w : Walk) : PairM Bool := do
  if v.left = 0 ∨ w.left = 0 then skipBoth isBlankOrNewline v w
  else
    let ⟨v', _⟩ ← onLeft (v.skip isBlank)
    let ⟨w', _⟩ ← onRight (w.skip isBlank)
    if 0 < v'.left ∧ 0 < w'.left ∧ v'.byte = w'.byte then
      let ⟨v'', _⟩ ← onLeft v'.step
      let ⟨w'', _⟩ ← onRight w'.step
      walkWhitespace v'' w''
    else skipBoth isBlankOrNewline v' w'
termination_by v.left

/-- Reads both tokens while their bytes are equal. Yields the bytes left on each side and the two bytes
read last. -/
def walkEqual : Nat → Nat → UInt8 → UInt8 → PairM (Walk × Walk)
  | m + 1, n + 1, _, _ => do
    let a ← onLeft Window.next
    let b ← onRight Window.next
    if a = b then walkEqual m n a b else return (⟨m + 1, a⟩, ⟨n + 1, b⟩)
  | m, n, a, b => return (⟨m, a⟩, ⟨n, b⟩)

/-- Whether two lines of `m` and `n` bytes at the cursors are equal up to their line ends. -/
def sameLine (m n : Nat) : PairM Bool := do
  let (v, w) ← walkEqual m n 0 0
  let byDefault := !((v.left != 0 || w.left != 0) && !isNewline v.byte && !isNewline w.byte)
  if v.left = 0 ∧ w.left = 1 then
    if isNewline (← onRight Window.next) then return true else return byDefault
  else if w.left = 0 ∧ v.left = 1 then
    if isNewline (← onLeft Window.next) then return true else return byDefault
  else return byDefault

def seekBoth (old new : Table) (i j : Nat) : PairM Unit := do
  onLeft (old.seek i)
  onRight (new.seek j)

namespace Table

/-- The exact comparison of token `i` of the left window and token `j` of the right one, whose hashes
are the same. The policy of the left table decides. -/
def equalText (old new : Table) (i j : Nat) : PairM Bool := do
  let m ← MonadExcept.ofExcept (old.length i)
  let n ← MonadExcept.ofExcept (new.length j)
  match old.policy with
  | .line | .word | .wordClass =>
    if m = n then do
      seekBoth old new i j
      return (← Window.compare m) == .eq
    else return false
  | .lineEnding =>
    if m ≤ n + 1 ∧ n ≤ m + 1 then do
      seekBoth old new i j
      sameLine m n
    else return false
  | .ignoreBlanks => do
    seekBoth old new i j
    let v ← onLeft (Walk.start m)
    let w ← onRight (Walk.start n)
    walkBlanks v w
  | .ignoreWhitespace => do
    seekBoth old new i j
    let v ← onLeft (Walk.start m)
    let w ← onRight (Walk.start n)
    walkWhitespace v w

/-- The hash of a token, as a fault if there is no such token. -/
def hash (t : Table) (i : Nat) : Except Fault UInt32 :=
  match t.hash? i with
  | some h => .ok h
  | none => .error (.noToken i)

def likely (old new : Table) (i j : Nat) : Except Fault Bool := do
  return (← old.hash i) == (← new.hash j)

/-- Whether two tokens are equal: their hashes are the same, and so is their text under the policy. -/
def equal (old new : Table) (i j : Nat) : PairM Bool := do
  if ← MonadExcept.ofExcept (old.likely new i j) then old.equalText new i j else return false

end Table

def Table.comparison (old new : Table) : Comparison (Window × Window) where
  oldCount := old.count
  newCount := new.count
  likely i j := old.hash? i == new.hash? j
  equal := old.equal new

end TokenDiff
