import NativeBinding.Text.Digit

/-!
Numbers of 53 significant bits with eleven bits of exponent, read from decimals. A finite magnitude
is `m * 2 ^ k` units, the unit being the least positive number `2 ^ -1074`; either `k` is zero or
`m` has all 53 bits. Reading rounds to the nearest number and a tie to the even significand.
-/

namespace NativeBinding.Number

open Text

abbrev pow2 (n : Nat) : Nat := Nat.pow 2 n
abbrev pow10 (n : Nat) : Nat := Nat.pow 10 n

inductive Magnitude
  | finite (m k : Nat)
  | infinite
  deriving DecidableEq

structure Binary64 where
  negative : Bool
  magnitude : Magnitude
  deriving DecidableEq

/-- The integer nearest to a quotient; a tie goes to the even one. -/
def roundQuotient (num den : Nat) : Nat :=
  let q := num / den
  let r := num % den
  if 2 * r < den then q else if den < 2 * r then q + 1 else q + q % 2

def Magnitude.nearest (num den : Nat) : Magnitude :=
  let units := num * pow2 1074
  let k := (units / den).log2 - 52
  let m := roundQuotient units (den * pow2 k)
  let carried := m == pow2 53
  let m' := if carried then pow2 52 else m
  let k' := if carried then k + 1 else k
  if k' ≤ 2045 then .finite m' k' else .infinite

/-- The number nearest to `m * 10 ^ exponent`. Decimals far out of range are not computed. -/
def Magnitude.ofDecimal (m : Nat) (exponent : Int) : Magnitude :=
  let digits : Int := (Nat.toDigits 10 m).length
  if m == 0 || digits + exponent < -330 then .finite 0 0
  else if 330 < digits + exponent then .infinite
  else if 0 ≤ exponent then .nearest (m * pow10 exponent.toNat) 1
  else .nearest m (pow10 (-exponent).toNat)

def Magnitude.isZero : Magnitude → Bool
  | finite m _ => m == 0
  | infinite => false

def Binary64.ofPointed (cs : List Char) : Binary64 :=
  let negative := cs.head? == some '-'
  let unsigned := if negative then cs.tail else cs
  let whole := unsigned.takeWhile (· != '.')
  let fraction := (unsigned.dropWhile (· != '.')).tail
  ⟨negative, .ofDecimal (digitsToNat (whole ++ fraction)) (-(fraction.length : Int))⟩

end NativeBinding.Number
