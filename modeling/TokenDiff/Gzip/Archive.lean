import TokenDiff.Gzip.Checksum
import TokenDiff.Gzip.Inflate
import TokenDiff.Reader

/-!
# Archives

An archive is a header, compressed data, and a trailer with the check sum and the size of the content.
Only the first archive of an input counts, and whatever follows it is ignored.

What an archive yields is a feed again. If it breaks off, the content up to there is yielded before the
failure, and so it is when the trailer does not fit; data that is damaged yields nothing.
-/

namespace TokenDiff.Gzip

abbrev HeaderM := StateT (List UInt8) (Except GzipFault)

namespace Header

def take (n : Nat) : HeaderM (List UInt8) := do
  let data ← get
  if data.length < n then throw .truncatedFrame
  set (data.drop n)
  return data.take n

def textLimit : Nat := 65535

def skipText : HeaderM Unit := do
  let data ← get
  let text := data.takeWhile (· != 0)
  if textLimit < text.length then throw .headerField
  let rest := data.drop text.length
  if rest.isEmpty then throw .truncatedFrame
  set (rest.drop 1)

def number (data : List UInt8) : Nat := data.foldr (fun b n => b.toNat + 256 * n) 0

/-- The first four bytes are two marks, the method and the flags. Marks, method and the three flags
without a meaning are fixed. -/
def flags? : List UInt8 → Option Nat
  | 0x1F :: 0x8B :: 8 :: flags :: _ => if flags &&& 0xE0 = 0 then some flags.toNat else none
  | _ => none

def skip : HeaderM Unit := do
  let start ← get
  let some flags := flags? (← take 10) | throw .header
  if flags.testBit 2 then
    let length ← take 2
    discard <| take (number length)
  if flags.testBit 3 then skipText
  if flags.testBit 4 then skipText
  if flags.testBit 1 then
    let passed := start.take (start.length - (← get).length)
    let stated ← take 2
    if number stated != (checksum passed).toNat % 65536 then throw .checksum

end Header

def contentFeed (archive : List UInt8) : Feed :=
  match Header.skip.run archive with
  | .error fault => [.failed (.gzip fault)]
  | .ok ((), data) =>
    match inflate data with
    | (_, .error .corruptData) => [.failed (.gzip .corruptData)]
    | (content, .error fault) => Feed.ofBytes content ++ [.failed (.gzip fault)]
    | (content, .ok trailer) =>
      if trailer.length < 8 then Feed.ofBytes content ++ [.failed (.gzip .truncatedFrame)]
      else if Header.number (trailer.take 4) = (checksum content).toNat ∧
          Header.number ((trailer.drop 4).take 4) = content.length % 4294967296 then
        Feed.ofBytes content
      else Feed.ofBytes content ++ [.failed (.gzip .checksum)]

def unpack (feed : Feed) : Feed :=
  match (Reader.ofFeed .raw feed).readToEnd with
  | .ok archive => contentFeed archive
  | .error (.failed cause) => [.failed cause]
  | .error (.malformed ..) => []

end TokenDiff.Gzip
