import TokenDiff.Files.Disk
import TokenDiff.Gzip.Archive
import TokenDiff.Source

/-!
# Contents of files

A file is a source: each opening follows its path again and reads the file from the start, through the
archive it holds if it is taken for one. Size and time are those of the file as it is stored.
-/

namespace TokenDiff

inductive Compression where
  | none
  | gzip
deriving DecidableEq, Repr

def Compression.detect (p : Path) : Compression :=
  if p.extension? = some "gz" then .gzip else .none

def Compression.content : Compression → Feed → Feed
  | .none, feed => feed
  | .gzip, feed => Gzip.unpack feed

def Disk.source (d : Disk) (p : Path) (charset : Charset) (compression : Compression) : Source where
  label := p.text
  charset := charset
  feedAt _ :=
    match d.openFeed p with
    | .ok feed => .ok (compression.content feed)
    | .error fault => .error (.path fault)
  lengthHint := (d.file? p).map fun f => f.data.length
  modified := (d.file? p).map File.modified

end TokenDiff
