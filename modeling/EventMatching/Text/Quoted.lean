/-
Quoted texts: a text between double quotes, in which a quote, a backslash and every character that is not printable is
written as an escape.
-/
import EventMatching.Text.Printable

namespace EventMatching
namespace Quoted

/-- the hexadecimal digits of a code point, in lower case and without leading zeros -/
def hex (c : Char) : List Char := Nat.toDigits 16 c.toNat

/-- how a character is written between the quotes -/
def escape (c : Char) : List Char :=
  match c with
  | '"' => ['\\', '"']
  | '\\' => ['\\', '\\']
  | '\n' => ['\\', 'n']
  | '\r' => ['\\', 'r']
  | '\t' => ['\\', 't']
  | '\x00' => ['\\', '0']
  | _ => if isPrintable c then [c] else ['\\', 'u', '\x7b'] ++ hex c ++ ['\x7d']

end Quoted

/-- a text in quotes, with escapes -/
def quote (s : String) : String := String.ofList ('"' :: s.toList.flatMap Quoted.escape ++ ['"'])

end EventMatching
