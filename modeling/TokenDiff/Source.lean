import TokenDiff.Reader

/-!
# Sources

A `Source` can be opened again and again, each time from the start. What an opening yields is a function
of its number, so a source may hand out its content in other pieces every time, or refuse to be opened
once too often.
-/

namespace TokenDiff

structure Source where
  label : String
  charset : Charset
  /-- the feed of the opening with that number, counted from zero -/
  feedAt : Nat → Except Failure Feed
  /-- the number of bytes it is known to have before decoding -/
  lengthHint : Option Nat := none
  /-- when it was last changed, in nanoseconds since the start of 1970 -/
  modified : Option Int := none

namespace Source

def ofBytes (label : String) (charset : Charset) (data : List UInt8) : Source where
  label := label
  charset := charset
  feedAt _ := .ok (Feed.ofBytes data)
  lengthHint := some data.length

/-- A source that hands out the same events at every opening, at the first `openings` of them if there
is a limit. -/
def ofFeed (label : String) (charset : Charset) (feed : Feed) (openings : Option Nat) : Source where
  label := label
  charset := charset
  feedAt k :=
    match openings with
    | some limit => if k < limit then .ok feed else .error .refused
    | none => .ok feed

def reader (s : Source) (opening : Nat) : Except ReadFault Reader :=
  match s.feedAt opening with
  | .ok feed => .ok (Reader.ofFeed s.charset feed)
  | .error cause => .error (.failed cause)

def content (s : Source) (opening : Nat) : Except ReadFault (List UInt8) :=
  s.reader opening >>= Reader.readToEnd

end Source

end TokenDiff
