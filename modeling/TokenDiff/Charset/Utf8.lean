/-!
# Checking UTF-8

The checker looks at one byte at a time and keeps how many continuation bytes are still owed, and the
range the next one has to lie in. That range is narrower than `80`..`bf` after some lead bytes, which is
what excludes overlong forms, surrogates and numbers above `10ffff`. The state is small enough to be
carried over from one read to the next, so a sequence may be cut anywhere.
-/

namespace TokenDiff

/-- The state of the checker: the continuation bytes owed, the range of the next one, and the number of
bytes accepted so far. -/
structure Utf8Check where
  pending : Nat := 0
  lower : UInt8 := 0x80
  upper : UInt8 := 0xbf
  offset : Nat := 0
deriving DecidableEq, Repr

namespace Utf8Check

/-- The state after a lead byte: how many bytes it calls for, and the range of the first of them. -/
def expect (s : Utf8Check) (pending : Nat) (lower upper : UInt8) : Utf8Check :=
  { pending, lower, upper, offset := s.offset + 1 }

def step (s : Utf8Check) (b : UInt8) : Option Utf8Check :=
  if 0 < s.pending then
    if b < s.lower ∨ s.upper < b then none else some (s.expect (s.pending - 1) 0x80 0xbf)
  else if b ≤ 0x7f then some { s with offset := s.offset + 1 }
  else if b < 0xc2 then none
  else if b ≤ 0xdf then some (s.expect 1 0x80 0xbf)
  else if b = 0xe0 then some (s.expect 2 0xa0 0xbf)
  else if b = 0xed then some (s.expect 2 0x80 0x9f)
  else if b ≤ 0xef then some (s.expect 2 0x80 0xbf)
  else if b = 0xf0 then some (s.expect 3 0x90 0xbf)
  else if b ≤ 0xf3 then some (s.expect 3 0x80 0xbf)
  else if b = 0xf4 then some (s.expect 3 0x80 0x8f)
  else none

def run (s : Utf8Check) : List UInt8 → Except Utf8Check Utf8Check
  | [] => .ok s
  | b :: bytes =>
    match s.step b with
    | some s => s.run bytes
    | none => .error s

end Utf8Check

end TokenDiff
