import TokenDiff.Edit.Tuning
import TokenDiff.Token.Cut

/-!
# Token sequences

A `Sequence` is a table of tokens and the window they were cut from, through which their text is read
again: `copyTokens` continues from the cursor into a buffer of limited size, `dump` goes to a token
first and repeats that until nothing more comes.
-/

namespace TokenDiff

structure Sequence where
  table : Table
  window : Window

namespace Sequence

def ofSource (source : Source) (policy : Policy) (tuning : Tuning) : Except Fault Sequence := do
  let window ← Window.ofSource source tuning.windowSize
  match (cutEntries policy).run window with
  | .ok entries window => .ok { table := { policy, entries }, window }
  | .error fault _ => .error fault

/-- The same tokens over another source of the same content. -/
def rebind (s : Sequence) (source : Source) : Except Fault Sequence := do
  return { s with window := ← Window.ofSource source s.window.capacity }

def label (s : Sequence) : String := s.window.source.label

end Sequence

namespace Table

def seek (t : Table) (i : Nat) : WindowM Unit := do
  Window.seek (← MonadExcept.ofExcept (t.offset i))

/-- The place where the tokens before `stop` end; there are none after the last one. -/
def limit (t : Table) (stop : Nat) : Nat := (t.offset? (min stop t.count)).getD 0

/-- The bytes from the cursor up to a place of the stream, as many as fit into `room` bytes once their
line ends are translated. -/
def copyUpTo (limit room : Nat) (type : LineType) : WindowM (List UInt8) := do
  Window.copy room (limit - (← get).tell) type

/-- The text from the cursor to the end of the tokens before `stop`, as much as fits into `room` bytes.
Also yields the token the cursor is taken to be in: `stop` if the end has been reached, else `start`. -/
def copyTokens (t : Table) (start stop room : Nat) (type : LineType) :
    WindowM (List UInt8 × Nat) := do
  let text ← copyUpTo (t.limit stop) room type
  let cursor := if t.limit stop ≤ (← get).tell then min stop t.count else start
  return (text, cursor)

def dumpSize : Nat := 1024

/-- The bytes from the cursor up to a place of the stream, copied in at most `fuel` parts, and the last byte that
has been copied. Before these parts that was `last`. -/
def dumpUpTo (limit : Nat) (type : LineType) :
    Nat → Option UInt8 → WindowM (List UInt8 × Option UInt8)
  | 0, last => return ([], last)
  | fuel + 1, last => do
    let text ← copyUpTo limit dumpSize type
    if text.isEmpty then return ([], last)
    else
      let (rest, last) ← dumpUpTo limit type fuel text.getLast?
      return (text ++ rest, last)

/-- The text of the tokens from `start` on and before `stop`, and whether it ends a line, as nothing does and what
has a line feed as its last byte. -/
def dump (t : Table) (start stop : Nat) (type : LineType) : WindowM (List UInt8 × Bool) := do
  t.seek start
  let limit := t.limit stop
  let (text, last) ← dumpUpTo limit type (limit - (← get).tell) none
  return (text, last.all (· == 10))

end Table

end TokenDiff
