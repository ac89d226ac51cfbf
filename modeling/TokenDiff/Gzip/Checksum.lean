/-!
# Cyclic redundancy checks

The check sum of an archive is the remainder of its content under a fixed polynomial, computed bit by
bit from the low end, with all bits inverted before and after.
-/

namespace TokenDiff.Gzip

def shiftBit (crc : UInt32) : UInt32 :=
  if crc &&& 1 = 1 then (crc >>> 1) ^^^ 0xEDB88320 else crc >>> 1

def shiftByte (crc : UInt32) (b : UInt8) : UInt32 :=
  Nat.repeat shiftBit 8 (crc ^^^ b.toUInt32)

def checksum (data : List UInt8) : UInt32 := ~~~(data.foldl shiftByte (~~~0))

end TokenDiff.Gzip
