import TokenDiff.LineType
import TokenDiff.Source

/-!
# Byte windows

A `Window` gives random access to a source through one buffer of fixed size. It holds the bytes of the
stream from `offset - filled` up to `offset`, and its cursor is `position` bytes into them. Reading on
fills the buffer anew; seeking to a place before the buffer opens the source once more and reads from
there, since a stream that is decoded on the way has no places to jump to.

Operations on a window may fail and leave it where they had come to, so they are written in
`WindowM`, which keeps the state beside the fault. Operations on two windows at once are in `PairM`.
-/

namespace TokenDiff

structure Window where
  source : Source
  /-- the number of times the source has been asked to open -/
  openings : Nat
  reader : Reader
  capacity : Nat
  /-- what has been written into the buffer so far, from its start -/
  buffer : Array UInt8
  position : Nat
  filled : Nat
  offset : Nat
  /-- the largest offset seen, or the last place at which the stream came up short -/
  size : Nat

abbrev WindowM := EStateM Fault Window

namespace Window

def ofSource (source : Source) (size : Nat) : Except Fault Window :=
  match source.reader 0 with
  | .ok reader =>
    .ok { source, reader, openings := 1, capacity := max size 1, buffer := #[], position := 0,
          filled := 0, offset := 0, size := 0 }
  | .error fault => .error (.read fault)

def tell (w : Window) : Nat := w.offset - w.filled + w.position

/-- The place of the first buffered byte in the stream. -/
def base (w : Window) : Nat := w.offset - w.filled

def available (w : Window) : Nat := w.filled - w.position

/-- A number above the count of the bytes between the cursor and the end of the stream. A pass over
the stream makes at most so many steps, the one that finds the end included. -/
def bound (w : Window) : Nat := w.available + w.reader.bound + 1

def overwrite (buffer : Array UInt8) (data : List UInt8) : Array UInt8 :=
  data.toArray ++ buffer.extract data.length

/-- Reads into the buffer and yields the number of bytes read. Where there are none, the buffer stays
and the stream is taken to end here. -/
def fill : WindowM Nat := fun w =>
  match w.reader.readSteady w.capacity with
  | (.bytes [], reader) => .ok 0 { w with reader, size := w.offset }
  | (.bytes data, reader) =>
    let offset := w.offset + data.length
    .ok data.length { w with
      reader, offset
      buffer := overwrite w.buffer data
      position := 0
      filled := data.length
      size := max w.size offset }
  | (.failed fault spilled, reader) =>
    .error (.read fault) { w with reader, buffer := overwrite w.buffer spilled }
  | (.interrupted, reader) => .ok 0 { w with reader }

theorem offset_of_fill {w next : Window} {n : Nat} (h : fill w = .ok n next) :
    next.offset = w.offset + n := by
  unfold fill at h
  split at h <;> cases h <;> rfl

/-- Opens the source once more and starts over. A source that refuses may open the next time. -/
def rewind : WindowM Unit := do
  let w ← get
  match w.source.reader w.openings with
  | .ok reader =>
    set { w with reader, openings := w.openings + 1, position := 0, filled := 0, offset := 0 }
  | .error fault =>
    set { w with openings := w.openings + 1 }
    throw (.read fault)

/-- Reads on until `target` is buffered or the stream ends. -/
def seekForward (target : Nat) : WindowM Unit := fun w =>
  if w.offset < target then
    match h : fill w with
    | .ok 0 next => .ok () { next with position := next.filled }
    | .ok (n + 1) next =>
      have := offset_of_fill h
      seekForward target next
    | .error fault next => .error fault next
  else .ok () { w with position := target - w.base }
termination_by w => target - w.offset

def seek (target : Nat) : WindowM Unit := do
  if target < (← get).base then
    rewind
    if (← fill) ≠ 0 then seekForward target
  else seekForward target

/-- The number of bytes that can be taken from the buffer, which is filled first if there are none. -/
def ready : WindowM Nat := do
  let w ← get
  if w.available = 0 then fill else return w.available

def atEnd : WindowM Bool := return (← ready) = 0

def peek? : WindowM (Option UInt8) := do
  if (← ready) = 0 then return none
  else
    let w ← get
    return w.buffer[w.position]?

def skip (n : Nat) : WindowM Unit := modify fun w => { w with position := w.position + n }

def next? : WindowM (Option UInt8) := do
  match ← peek? with
  | some b => do
    skip 1
    return some b
  | none => return none

/-- The byte at the cursor, which moves on; the end of the stream reads as zero. -/
def next : WindowM UInt8 := return (← next?).getD 0

def advance : WindowM Unit := do
  let _ ← next?

def skipWhile (p : UInt8 → Bool) : Nat → WindowM Unit
  | 0 => pure ()
  | fuel + 1 => do
    match ← peek? with
    | some b =>
      if p b then do
        skip 1
        skipWhile p fuel
      else pure ()
    | none => pure ()

def take (n : Nat) : WindowM (List UInt8) := do
  if n = 0 then return []
  else
    let count ← ready
    if count = 0 then return []
    else
      let w ← get
      let span := min count n
      skip span
      let rest ← take (n - span)
      return (w.buffer.extract w.position (w.position + span)).toList ++ rest
termination_by n
decreasing_by omega

/-- The next bytes with each carriage return dropped that a line feed follows. At most `room` bytes are
written and `length` bytes are read, with one more if a carriage return at the end of them is followed
by a line feed. -/
def takeCollapsed : Nat → Nat → WindowM (List UInt8)
  | 0, _ => return []
  | _, 0 => return []
  | room + 1, length + 1 => do
    match ← next? with
    | none => return []
    | some b =>
      if b = 13 then
        if (← peek?) = some 10 then do
          advance
          return 10 :: (← takeCollapsed room (length - 1))
        else return b :: (← takeCollapsed room length)
      else return b :: (← takeCollapsed room length)

/-- At most `room` bytes made from the next `length` bytes by translating line ends. -/
def copy (room length : Nat) : LineType → WindowM (List UInt8)
  | .raw => take (min room length)
  | .cr => return (← take (min room length)).map LineType.returnToFeed
  | .crLf | .lfCrLf => takeCollapsed room length

end Window

/-! Two windows at once -/

abbrev PairM := EStateM Fault (Window × Window)

namespace PairM

variable {α : Type}

def onLeft (x : WindowM α) : PairM α := fun (l, r) =>
  match x l with
  | .ok a l => .ok a (l, r)
  | .error e l => .error e (l, r)

def onRight (x : WindowM α) : PairM α := fun (l, r) =>
  match x r with
  | .ok a r => .ok a (l, r)
  | .error e r => .error e (l, r)

def exchanged (x : PairM α) : PairM α := fun (l, r) =>
  match x (r, l) with
  | .ok a (r, l) => .ok a (l, r)
  | .error e (r, l) => .error e (l, r)

end PairM

namespace Window

open PairM

/-- The first of the next `n` bytes in which two buffers differ, from places `i` and `j` on. -/
def mismatch (left right : Array UInt8) (i j : Nat) : Nat → Option Nat
  | 0 => none
  | n + 1 =>
    if left[i]? == right[j]? then (mismatch left right (i + 1) (j + 1) n).map (· + 1) else some 0

/-- Compares the next `n` bytes of two windows, or as many as both have. Both cursors move past what
has been compared. -/
def compare (n : Nat) : PairM Ordering := do
  if n = 0 then return .eq
  else
    let ours ← onLeft ready
    let theirs ← onRight ready
    if ours = 0 ∨ theirs = 0 then return .eq
    else
      let (l, r) ← get
      let span := min (min ours theirs) n
      match mismatch l.buffer r.buffer l.position r.position span with
      | some k =>
        onLeft (skip (k + 1))
        onRight (skip (k + 1))
        return Ord.compare (l.buffer.getD (l.position + k) 0) (r.buffer.getD (r.position + k) 0)
      | none =>
        onLeft (skip span)
        onRight (skip span)
        compare (n - span)
termination_by n
decreasing_by omega

end Window

end TokenDiff
