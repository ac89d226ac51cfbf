import TokenDiff.Charset.Utf8

/-!
# Text and bytes

`utf8Bytes` writes a text in UTF-8. `repairUtf8` makes any bytes readable as such: each longest piece
that cannot be part of a character is replaced by the replacement character.
-/

namespace TokenDiff

def utf8Bytes (s : String) : List UInt8 := s.toList.flatMap String.utf8EncodeChar

def replacement : List UInt8 := [0xef, 0xbf, 0xbd]

/-- The bytes with invalid pieces replaced; `held` is the part read so far of a character that is not
complete, last byte first, and `s` the state of the check after it. -/
def repairFrom (s : Utf8Check) (held : List UInt8) : List UInt8 → List UInt8
  | [] => if held.isEmpty then [] else replacement
  | b :: bytes =>
    match s.step b with
    | some s =>
      if s.pending = 0 then held.reverse ++ b :: repairFrom {} [] bytes
      else repairFrom s (b :: held) bytes
    | none =>
      -- a byte that ends an incomplete character is looked at once more on its own
      match if held.isEmpty then none else ({} : Utf8Check).step b with
      | none =>
        if held.isEmpty then replacement ++ repairFrom {} [] bytes
        else replacement ++ replacement ++ repairFrom {} [] bytes
      | some s =>
        if s.pending = 0 then replacement ++ b :: repairFrom {} [] bytes
        else replacement ++ repairFrom s [b] bytes

/-- The bytes with each invalid piece replaced. -/
def repairUtf8 (bytes : List UInt8) : List UInt8 := repairFrom {} [] bytes

end TokenDiff
