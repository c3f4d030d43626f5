import NativeBinding.Text.Digit
import NativeBinding.Text.Printable

/-!
Quoted text for messages. The quote is single, or double around a text with single quotes only.
What is not printable is written by its code point, with as many hexadecimal digits as it needs of
two, four and eight.
-/

namespace NativeBinding.Text

def escapeCodePoint (n : Nat) : List Char :=
  if n ≤ 0xff then '\\' :: 'x' :: hexText 2 n
  else if n ≤ 0xffff then '\\' :: 'u' :: hexText 4 n
  else '\\' :: 'U' :: hexText 8 n

def escapeQuoted (quote c : Char) : List Char :=
  if c == quote || c == '\\' then ['\\', c]
  else if c == '\n' then ['\\', 'n']
  else if c == '\r' then ['\\', 'r']
  else if c == '\t' then ['\\', 't']
  else if isPrintable c then [c]
  else escapeCodePoint c.toNat

def quoteFor (cs : List Char) : Char :=
  if cs.contains '\'' && !cs.contains '"' then '"' else '\''

def quoted (s : String) : String :=
  let quote := quoteFor s.toList
  String.ofList (quote :: s.toList.flatMap (escapeQuoted quote) ++ [quote])

example : escapeCodePoint 0x1f = ['\\', 'x', '1', 'f'] := by decide

end NativeBinding.Text
