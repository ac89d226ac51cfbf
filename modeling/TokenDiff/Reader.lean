import TokenDiff.Charset.Utf16
import TokenDiff.Charset.Utf8
import TokenDiff.Feed
import TokenDiff.Spelling

/-!
# Readers

A `Reader` is a feed seen through a charset. Raw bytes pass as they are, UTF-8 passes unchanged and is
checked on the way, UTF-16 is decoded into a store of its own and handed out from there.

The outcome of one read is a `Reading`. A read that fails may still have written into the buffer of its
caller: the check of UTF-8 looks at the bytes only after they have been put there. A failed reading says
what was written, since a caller that goes on will find those bytes in its buffer.
-/

namespace TokenDiff

instance : Spelled Charset where
  all := [.raw, .utf8, .utf16le, .utf16be]
  name
    | .raw => "raw"
    | .utf8 => "utf8"
    | .utf16le => "utf16le"
    | .utf16be => "utf16be"

inductive Reading where
  | bytes (data : List UInt8)
  | interrupted
  | failed (fault : ReadFault) (spilled : List UInt8)
deriving DecidableEq, Repr

/-- A decoder of UTF-16 with the bytes it has not handed out yet. -/
structure Utf16Store where
  order : ByteOrder
  decode : Utf16Decode := {}
  ready : List UInt8 := []
  finished : Bool := false
deriving DecidableEq, Repr

namespace Utf16Store

def charset (s : Utf16Store) : Charset :=
  match s.order with
  | .little => .utf16le
  | .big => .utf16be

def malformed (s : Utf16Store) : ReadFault := .malformed s.charset s.decode.offset

def chunkSize : Nat := 8192

/-- Reads from the feed until there is something to hand out, or the input has ended. -/
def refill (s : Utf16Store) (feed : Feed) : Option ReadFault × Utf16Store × Feed :=
  if s.ready.isEmpty && !s.finished then
    match h : feed.settle.read chunkSize with
    | (.bytes [], rest) =>
      (if s.decode.isPartial then some s.malformed else none, { s with finished := true }, rest)
    | (.bytes (b :: data), rest) =>
      have := Feed.volume_read_lt h
      have := feed.volume_settle_le
      let (ready, decode, stopped) := s.decode.feed s.order (b :: data)
      let s := { s with decode, ready }
      if stopped then (some s.malformed, s, rest) else s.refill rest
    | (.failed cause, rest) => (some (.failed cause), s, rest)
    | (.interrupted, rest) => (none, s, rest)
  else (none, s, feed)
termination_by feed.volume

def read (s : Utf16Store) (n : Nat) (feed : Feed) : Reading × Utf16Store × Feed :=
  match s.refill feed with
  | (some fault, s, feed) => (.failed fault [], s, feed)
  | (none, s, feed) => (.bytes (s.ready.take n), { s with ready := s.ready.drop n }, feed)

end Utf16Store

inductive Decoder where
  | raw
  | utf8 (check : Utf8Check)
  | utf16 (store : Utf16Store)
deriving DecidableEq, Repr

structure Reader where
  feed : Feed
  decoder : Decoder
deriving DecidableEq, Repr

namespace Reader

def ofFeed (charset : Charset) (feed : Feed) : Reader where
  feed := feed
  decoder :=
    match charset with
    | .raw => .raw
    | .utf8 => .utf8 {}
    | .utf16le => .utf16 ⟨.little, {}, [], false⟩
    | .utf16be => .utf16 ⟨.big, {}, [], false⟩

/-- One read of checked bytes: an input may not end within a sequence, and a byte that is not allowed
loses the bytes of this read. -/
def readChecked (check : Utf8Check) (n : Nat) (feed : Feed) : Reading × Reader :=
  let stop (check : Utf8Check) (spilled : List UInt8) :=
    Reading.failed (.malformed .utf8 check.offset) spilled
  match feed.read n with
  | (.bytes [], rest) =>
    (if 0 < check.pending ∧ 0 < n then stop check [] else .bytes [], ⟨rest, .utf8 check⟩)
  | (.bytes data, rest) =>
    match check.run data with
    | .ok check => (.bytes data, ⟨rest, .utf8 check⟩)
    | .error check => (stop check data, ⟨rest, .utf8 check⟩)
  | (.interrupted, rest) => (.interrupted, ⟨rest, .utf8 check⟩)
  | (.failed cause, rest) => (.failed (.failed cause) [], ⟨rest, .utf8 check⟩)

/-- One read into a buffer of `n` bytes. -/
def read (r : Reader) (n : Nat) : Reading × Reader :=
  match r.decoder with
  | .raw =>
    match r.feed.read n with
    | (.bytes data, feed) => (.bytes data, { r with feed })
    | (.interrupted, feed) => (.interrupted, { r with feed })
    | (.failed cause, feed) => (.failed (.failed cause) [], { r with feed })
  | .utf8 check => readChecked check n r.feed
  | .utf16 store =>
    let (reading, store, feed) := store.read n r.feed
    (reading, ⟨feed, .utf16 store⟩)

/-- One read into a buffer of `n` bytes, tried again after each interruption. -/
def readSteady (r : Reader) (n : Nat) : Reading × Reader :=
  { r with feed := r.feed.settle }.read n

/-- A bound on the bytes the reader can still hand out. Two bytes of UTF-16 become at most three, and
what a decoder has kept becomes a few more. -/
def bound (r : Reader) : Nat :=
  match r.decoder with
  | .raw | .utf8 _ => r.feed.volume
  | .utf16 store => store.ready.length + 2 * r.feed.volume + 8

/-- Reads at most `fuel` times, until a read yields no bytes. -/
def drain : Nat → Reader → Except ReadFault (List UInt8)
  | 0, _ => .ok []
  | fuel + 1, r =>
    match r.readSteady 65536 with
    | (.bytes [], _) => .ok []
    | (.bytes data, r) => (drain fuel r).map (data ++ ·)
    | (.failed fault _, _) => .error fault
    | (.interrupted, r) => drain fuel r

def readToEnd (r : Reader) : Except ReadFault (List UInt8) := drain (r.bound + 1) r

end Reader

end TokenDiff
