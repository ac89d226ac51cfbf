import TokenDiff.Fault

/-!
# Feeds

A `Feed` is what the medium of an input hands out, event by event: some bytes, an interruption, or a
failure. `Feed.read n` is one read into a buffer of `n` bytes. It takes the first event; of bytes it
takes as many as fit and leaves the others in front. After the last event every read yields no bytes,
which is how the end of the input shows, and an event without bytes looks the same to that one read.

The number `Feed.volume` falls with every read that yields bytes, so it bounds what is still to come.
-/

namespace TokenDiff

inductive Event where
  | bytes (data : List UInt8)
  | interrupted
  | failed (cause : Failure)
deriving DecidableEq, Repr

abbrev Feed := List Event

namespace Feed

def ofBytes (data : List UInt8) : Feed := if data.isEmpty then [] else [.bytes data]

def putBack : List UInt8 → Feed → Feed
  | [], feed => feed
  | left, feed => .bytes left :: feed

def read (n : Nat) : Feed → Event × Feed
  | [] => (.bytes [], [])
  | .bytes data :: rest => (.bytes (data.take n), putBack (data.drop n) rest)
  | .interrupted :: rest => (.interrupted, rest)
  | .failed cause :: rest => (.failed cause, rest)

/-- The feed past its interruptions, for a reader that tries again after each of them. -/
def settle : Feed → Feed
  | .interrupted :: rest => settle rest
  | feed => feed

/-- The events and bytes of a feed together. -/
def volume : Feed → Nat
  | [] => 0
  | .bytes data :: rest => data.length + 1 + volume rest
  | _ :: rest => 1 + volume rest

@[simp] theorem volume_nil : volume [] = 0 := rfl

theorem volume_putBack_le (left : List UInt8) (feed : Feed) :
    (putBack left feed).volume ≤ left.length + 1 + feed.volume := by
  cases left <;> simp [putBack, volume]

theorem volume_settle_le (feed : Feed) : feed.settle.volume ≤ feed.volume := by
  fun_induction settle feed with
  | case1 rest ih => simp only [volume]; omega
  | case2 feed _ => exact Nat.le_refl _

/-- A read that yields bytes leaves a smaller feed. -/
theorem volume_read_lt {n : Nat} {feed rest : Feed} {b : UInt8} {data : List UInt8}
    (h : feed.read n = (.bytes (b :: data), rest)) : rest.volume < feed.volume := by
  match feed with
  | [] => simp [read] at h
  | .interrupted :: _ => simp [read] at h
  | .failed _ :: _ => simp [read] at h
  | .bytes all :: tail =>
    simp only [read, Prod.mk.injEq, Event.bytes.injEq] at h
    have taken := congrArg List.length h.1
    have back := volume_putBack_le (all.drop n) tail
    simp only [List.length_take, List.length_cons, List.length_drop] at taken back
    rw [← h.2, volume]
    omega

end Feed

end TokenDiff
