import TokenDiff.Token.Table
import TokenDiff.Window

/-!
# Cutting a stream into tokens

A stream is cut in one pass over its window. What has been found so far is a `Draft`: the entries of the
tokens that are closed, and the start and hash of the one that is open. For each policy a function says
what one byte does to the draft, where it may look at the bytes that follow and take some of them along;
`visitBytes` goes through the stream with it. A policy may also end the pass before the stream ends.

The last token of a stream is closed when nothing follows it. The window answers that question for the
moment only: a stream that goes on after all is cut there and read on.
-/

namespace TokenDiff

structure Draft where
  closed : Array Entry := #[]
  start : Nat := 0
  hash : UInt32 := 0

namespace Draft

def add (d : Draft) (b : UInt8) : Draft := { d with hash := hashByte d.hash b }

/-- The draft with the open token closed before a place of the stream, where the next one starts. -/
def close (d : Draft) (stop : Nat) : Draft where
  closed := d.closed.push ⟨d.hash, d.start⟩
  start := stop
  hash := 0

def entries (d : Draft) : Array Entry := d.closed.push ⟨0, d.start⟩

def closeHere (d : Draft) : WindowM Draft := return d.close (← get).tell

def closeIf (d : Draft) (condition : Bool) : WindowM Draft :=
  if condition then d.closeHere else pure d

end Draft

/-- What is left of a pass after a byte: to go on with the next one, or to stop. -/
inductive Visit (α : Type) where
  | more (a : α)
  | done (a : α)

/-- Visits at most `fuel` bytes from the cursor on. Each visit is told how many may come after its own. -/
def visitBytes {α : Type} (visit : Nat → α → UInt8 → WindowM (Visit α)) : Nat → α → WindowM α
  | 0, a => pure a
  | fuel + 1, a => do
    match ← Window.next? with
    | none => return a
    | some b =>
      match ← visit fuel a b with
      | .more a => visitBytes visit fuel a
      | .done a => return a

def visitAll {α : Type} (visit : Nat → α → UInt8 → WindowM (Visit α)) (a : α) : WindowM α := do
  visitBytes visit (← get).bound a

def absorbLineFeed (b : UInt8) : WindowM Unit := do
  if b = 13 then
    if (← Window.peek?) = some 10 then Window.advance

def visitDelimited (delimiter : UInt8) (d : Draft) (b : UInt8) : WindowM (Visit Draft) := do
  let d := d.add b
  if b = delimiter then return .more (← d.closeHere)
  else return .more (← d.closeIf (← Window.atEnd))

/-- The classes of bytes whose runs are tokens. A line feed is in a class of its own, which is left
after each of them. -/
inductive ByteClass where
  | carriageReturn
  | letter
  | space
  | other
  | lineFeed
deriving DecidableEq, Repr

namespace ByteClass

def ofByte (b : UInt8) : ByteClass :=
  if b = 13 then .carriageReturn
  else if b = 10 then .lineFeed
  else if (65 ≤ b ∧ b ≤ 90) ∨ (97 ≤ b ∧ b ≤ 122) ∨ 128 ≤ b then .letter
  else if b = 32 then .space
  else .other

/-- Whether two neighbouring bytes belong to one token: they are of one class, or they are a carriage
return and its line feed. Nothing follows a line feed in its token. -/
def joins : ByteClass → ByteClass → Bool
  | .lineFeed, _ => false
  | .carriageReturn, .lineFeed => true
  | before, after => before == after

end ByteClass

/-- A token is a run of one class. The class of the byte before is kept beside the draft. -/
def visitClass (s : Option ByteClass × Draft) (b : UInt8) :
    WindowM (Visit (Option ByteClass × Draft)) := do
  let current := ByteClass.ofByte b
  let stop := (← get).tell - 1
  let d :=
    match s.1 with
    | some last => if last.joins current then s.2 else s.2.close stop
    | none => s.2
  return .more (some current, d.add b)

/-- A token ends with a line end, all of which count as a line feed; a missing one does too. -/
def visitLineEnding (d : Draft) (b : UInt8) : WindowM (Visit Draft) := do
  if isNewline b then
    absorbLineFeed b
    let _ ← Window.atEnd
    return .more (← (d.add 10).closeHere)
  else
    let d := d.add b
    if ← Window.atEnd then return .more (← (d.add 10).closeHere)
    else return .more d

/-- Adds a byte that is not blank and closes the token after a line end or at the end of the stream. -/
def finishByte (d : Draft) (b : UInt8) : WindowM Draft := do
  absorbLineFeed b
  let d := if isNewline b then d else d.add b
  let ended ← Window.atEnd
  d.closeIf (ended || isNewline b)

/-- A token ends with a line end, which does not count. A run of blanks counts as one space, and not at
all at the end of a line. -/
def visitBlanks (fuel : Nat) (d : Draft) (b : UInt8) : WindowM (Visit Draft) := do
  if isBlank b then
    Window.skipWhile isBlank fuel
    match ← Window.peek? with
    | none => return .done (← d.closeHere)
    | some following =>
      let d := if isNewline following then d else d.add 32
      Window.skip 1
      return .more (← finishByte d following)
  else return .more (← finishByte d b)

/-- The first byte from `b` on that is not blank, or the last blank of the stream; looks at `fuel`
bytes at most. -/
def passBlanks : Nat → UInt8 → WindowM UInt8
  | 0, b => pure b
  | fuel + 1, b => do
    if isBlank b then
      match ← Window.next? with
      | some next => passBlanks fuel next
      | none => return b
    else return b

/-- A token ends with a line end. Neither line ends nor blanks count. -/
def visitWhitespace (fuel : Nat) (d : Draft) (b : UInt8) : WindowM (Visit Draft) := do
  let b ← passBlanks fuel b
  absorbLineFeed b
  let d := if isBlankOrNewline b then d else d.add b
  let ended ← Window.atEnd
  return .more (← d.closeIf (ended || isNewline b))

def cutEntries : Policy → WindowM (Array Entry)
  | .line => return (← visitAll (fun _ => visitDelimited 10) {}).entries
  | .word => return (← visitAll (fun _ => visitDelimited 32) {}).entries
  | .wordClass => do
    let (last, d) ← visitAll (fun _ => visitClass) (none, {})
    return (← d.closeIf last.isSome).entries
  | .lineEnding => return (← visitAll (fun _ => visitLineEnding) {}).entries
  | .ignoreBlanks => return (← visitAll visitBlanks {}).entries
  | .ignoreWhitespace => return (← visitAll visitWhitespace {}).entries

end TokenDiff
