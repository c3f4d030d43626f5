import NativeBinding.Text.Digit

/-!
Unicode scalar values and their encoding in bytes. Decoding stops at the first byte that starts no
scalar value and says where and why: the bytes named are those of the longest correct beginning.
-/

namespace NativeBinding.Text

def scalar? (n : Nat) : Option Char :=
  if h : n.isValidChar then some ⟨n.toUInt32, by
    have hn : n < UInt32.size := by
      rcases h with h | h
      · exact Nat.lt_trans h (by decide)
      · exact Nat.lt_trans h.2 (by decide)
    rwa [UInt32.isValidChar, Nat.toUInt32, UInt32.toNat_ofNat_of_lt' hn]⟩
  else none

namespace Utf8

inductive Reason
  | invalidStart
  | invalidContinuation
  | unexpectedEnd
  deriving DecidableEq

structure Error where
  byte : UInt8
  position : Nat
  length : Nat
  reason : Reason
  deriving DecidableEq

def Reason.message : Reason → String
  | invalidStart => "invalid start byte"
  | invalidContinuation => "invalid continuation byte"
  | unexpectedEnd => "unexpected end of data"

def Error.message (e : Error) : String :=
  let place :=
    if e.length == 1 then
      "byte 0x" ++ String.ofList (hexText 2 e.byte.toNat) ++ " in position " ++
        toString e.position
    else "bytes in position " ++ toString e.position ++ "-" ++ toString (e.position + e.length - 1)
  "'utf-8' codec can't decode " ++ place ++ ": " ++ e.reason.message

def shape (b : Nat) : Option (Nat × Nat × Nat) :=
  if 0xc2 ≤ b && b ≤ 0xdf then some (0x80, 0xbf, 0)
  else if b == 0xe0 then some (0xa0, 0xbf, 1)
  else if b == 0xed then some (0x80, 0x9f, 1)
  else if 0xe1 ≤ b && b ≤ 0xef then some (0x80, 0xbf, 1)
  else if b == 0xf0 then some (0x90, 0xbf, 2)
  else if 0xf1 ≤ b && b ≤ 0xf3 then some (0x80, 0xbf, 2)
  else if b == 0xf4 then some (0x80, 0x8f, 2)
  else none

/-- Reads `count` continuation bytes onto `value`, `used` bytes having been read. The first of them
is in the given range. -/
def continued (low high value : Nat) : Nat → Nat → List UInt8 → Except (Nat × Reason) (Nat × Nat)
  | 0, used, _ => .ok (value, used)
  | _ + 1, used, [] => .error (used, .unexpectedEnd)
  | count + 1, used, b :: bs =>
      if low ≤ b.toNat && b.toNat ≤ high then
        continued 0x80 0xbf (value * 64 + (b.toNat - 0x80)) count (used + 1) bs
      else .error (used, .invalidContinuation)

def first (b : UInt8) (bs : List UInt8) : Except (Nat × Reason) (Nat × Nat) :=
  if b.toNat < 0x80 then .ok (b.toNat, 1)
  else
    match shape b.toNat with
    | none => .error (1, .invalidStart)
    | some (low, high, more) =>
        let lead := if more == 0 then b.toNat - 0xc0 else if more == 1 then b.toNat - 0xe0
          else b.toNat - 0xf0
        continued low high lead (more + 1) 1 bs

def decodeFrom : Nat → Nat → List UInt8 → Except Error (List Char)
  | _, _, [] => .ok []
  | skip + 1, position, _ :: bs => decodeFrom skip (position + 1) bs
  | 0, position, b :: bs =>
      match first b bs with
      | .error (length, reason) => .error ⟨b, position, length, reason⟩
      | .ok (n, used) =>
          (decodeFrom (used - 1) (position + 1) bs).map ((scalar? n).toList ++ ·)

def decode (bytes : List UInt8) : Except Error (List Char) :=
  decodeFrom 0 0 bytes

end Utf8

def normalizeLines : List Char → List Char
  | [] => []
  | '\r' :: '\n' :: cs => '\n' :: normalizeLines cs
  | '\r' :: cs => '\n' :: normalizeLines cs
  | c :: cs => c :: normalizeLines cs

end NativeBinding.Text
