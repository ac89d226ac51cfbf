/-!
# What can go wrong

Every failure is a cause, and the text of each cause is written in one place. A `Failure` is what the
medium below a reader reports: a file that is not there, a damaged archive, a fault of a device in its
own words. A `ReadFault` is a failure or content that its declared charset does not allow. A `Fault` is
what a comparison stops with: a read fault, a search that cannot divide its rectangle any further, a token index
beyond the end, or a sum beyond the largest counter.
-/

namespace TokenDiff

inductive Charset where
  | raw
  | utf8
  | utf16le
  | utf16be
deriving DecidableEq, Repr

def Charset.title : Charset → String
  | .raw => "raw"
  | .utf8 => "utf-8"
  | .utf16le => "utf-16le"
  | .utf16be => "utf-16be"

inductive GzipFault where
  | header
  | headerField
  | truncatedFrame
  | truncatedData
  | corruptData
  | checksum
deriving DecidableEq, Repr

def GzipFault.message : GzipFault → String
  | .header => "invalid gzip header"
  | .headerField => "gzip header field too long"
  | .truncatedFrame => "unexpected end of file"
  | .truncatedData => "incomplete deflate stream"
  | .corruptData => "corrupt deflate stream"
  | .checksum => "corrupt gzip stream does not have a matching checksum"

inductive PathFault where
  | notFound
  | notADirectory
  | isADirectory
  | permissionDenied
deriving DecidableEq, Repr

def PathFault.message : PathFault → String
  | .notFound => "No such file or directory (os error 2)"
  | .notADirectory => "Not a directory (os error 20)"
  | .isADirectory => "Is a directory (os error 21)"
  | .permissionDenied => "Permission denied (os error 13)"

/-- What the medium below a reader reports when it cannot deliver. -/
inductive Failure where
  | path (fault : PathFault)
  | gzip (fault : GzipFault)
  | refused
  | device (text : String)
deriving DecidableEq, Repr

def Failure.message : Failure → String
  | .path fault => fault.message
  | .gzip fault => fault.message
  | .refused => "open refused"
  | .device text => text

/-- What a reader stops with: the medium failed, or the content is not valid under the charset from
the byte at `offset` on. -/
inductive ReadFault where
  | failed (cause : Failure)
  | malformed (charset : Charset) (offset : Nat)
deriving DecidableEq, Repr

def ReadFault.message : ReadFault → String
  | .failed cause => cause.message
  | .malformed charset offset =>
    s!"input is not valid {charset.title} (at byte {offset})"

inductive Fault where
  | read (fault : ReadFault)
  | stalled (startX startY endX endY : Nat)
  | noToken (index : Nat)
  | overflow
deriving DecidableEq, Repr

def Fault.message : Fault → String
  | .read (.failed cause) => "I/O error: " ++ cause.message
  | .read fault => fault.message
  | .stalled startX startY endX endY =>
    s!"search stalled on rectangle ({startX},{startY})-({endX},{endY}) without shrinking"
  | .noToken index => s!"no token at index {index}"
  | .overflow => "a sum is beyond the largest counter"

end TokenDiff
