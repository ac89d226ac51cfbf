import TokenDiff.Text.Hidden
import TokenDiff.Text.Ranges

/-!
# Quoted text

A text in a message stands between quotes, so that it is plain where it begins and ends. Inside, the
quote and the backslash are marked with a backslash, a few controls have a letter of their own, and
characters without a shape are shown by their number. In a path the apostrophe is marked too.
-/

namespace TokenDiff.Quoted

def escape (marksApostrophe : Bool) (c : Char) : List Char :=
  match c with
  | '\x00' => ['\\', '0']
  | '\t' => ['\\', 't']
  | '\n' => ['\\', 'n']
  | '\r' => ['\\', 'r']
  | '\x22' => ['\\', '\x22']
  | '\\' => ['\\', '\\']
  | '\x27' => if marksApostrophe then ['\\', '\x27'] else ['\x27']
  | c =>
    if inRanges hiddenRanges c then
      ['\\', 'u', '\x7b'] ++ Nat.toDigits 16 c.toNat ++ ['\x7d']
    else [c]

def quote (marksApostrophe : Bool) (text : String) : String :=
  String.ofList ('\x22' :: text.toList.flatMap (escape marksApostrophe) ++ ['\x22'])

def plain (text : String) : String := quote false text

def path (text : String) : String := quote true text

end TokenDiff.Quoted
