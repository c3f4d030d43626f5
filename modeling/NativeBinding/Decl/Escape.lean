import NativeBinding.Text.Digit
import NativeBinding.Text.Utf8

/-!
String literals. Between its quotes a literal stands for itself, except that a backslash starts an
escape: a simple one, `\xHH` below 128, `\u` with a scalar value in braces, or a line break, which
disappears together with the blanks after it. `decode` reads escapes from the left and stops at the
first that is none of these.
-/

namespace NativeBinding

open Text

inductive EscapeError
  | notScalar (digits : List Char)
  | notAscii (digits : List Char)
  | unknown (c : Char)
  deriving DecidableEq

namespace Escape

def simple? : Char → Option Char
  | 'n' => some '\n'
  | 'r' => some '\r'
  | 't' => some '\t'
  | '\\' => some '\\'
  | '0' => some '\x00'
  | '\'' => some '\''
  | '"' => some '"'
  | _ => none

def isContinuation (c : Char) : Bool :=
  c == ' ' || c == '\t' || c == '\r' || c == '\n'

/-- The digits of `\u` and what follows: one to eight, of which the first is no underscore. -/
def unicodeDigits? : List Char → Option (List Char)
  | 'u' :: '\x7b' :: cs =>
      let digits := cs.takeWhile fun c => isHex c || c == '_'
      if digits.length ≤ 8 && digits.head?.any isHex && (cs.drop digits.length).head? == some '\x7d'
      then some digits else none
  | _ => none

def byteDigits? : List Char → Option (List Char)
  | 'x' :: a :: b :: _ => if isHex a && isHex b then some [a, b] else none
  | _ => none

def read (cs : List Char) : Except EscapeError (List Char × Nat) :=
  match unicodeDigits? cs with
  | some digits =>
      match scalar? (hexToNat (digits.filter (· != '_'))) with
      | some c => .ok ([c], digits.length + 3)
      | none => .error (.notScalar digits)
  | none =>
      match byteDigits? cs with
      | some digits =>
          match scalar? (hexToNat digits) with
          | some c => if c.toNat < 128 then .ok ([c], 3) else .error (.notAscii digits)
          | none => .error (.notAscii digits)
      | none =>
          match cs with
          | [] => .ok (['\\'], 0)
          | '\n' :: rest => .ok ([], 1 + (rest.takeWhile isContinuation).length)
          | c :: _ =>
              match simple? c with
              | some d => .ok ([d], 1)
              | none => .error (.unknown c)

/-- Reads on after `skip` more characters. -/
def decodeFrom : Nat → List Char → Except EscapeError (List Char)
  | _, [] => .ok []
  | skip + 1, _ :: cs => decodeFrom skip cs
  | 0, c :: cs =>
      if c == '\\' then
        match read cs with
        | .ok (out, n) => (decodeFrom n cs).map (out ++ ·)
        | .error e => .error e
      else (decodeFrom 0 cs).map (c :: ·)

def decode (content : List Char) : Except EscapeError (List Char) :=
  decodeFrom 0 content

end Escape

def EscapeError.message : EscapeError → String
  | notScalar digits => "invalid unicode escape '\\u\x7b" ++ String.ofList digits ++ "\x7d'"
  | notAscii digits => "out of range hex escape '\\x" ++ String.ofList digits ++ "'"
  | unknown c => "unknown character escape '\\" ++ String.ofList [c] ++ "'"

end NativeBinding
