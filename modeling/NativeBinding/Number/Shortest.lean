import NativeBinding.Number.Binary64

/-!
The fewest decimal digits that read back as a given number. A decimal reads back if it lies between
the midpoints to the two neighbours, the midpoints included if the significand is even. For each
count of digits only the two points of that decimal grid around the number can lie there.
-/

namespace NativeBinding.Number

structure Decimal where
  digits : Nat
  exponent : Int
  deriving DecidableEq

/-- The point `digits * 10 ^ exponent` in quarter units of `2 ^ -1074`, times `10 ^ scale`. -/
def Decimal.quarters (scale : Nat) (d : Decimal) : Nat :=
  d.digits * pow10 (d.exponent + scale).toNat * pow2 1076

def gridScale : Nat := 400

def readsBack (m k : Nat) (d : Decimal) : Bool :=
  let q := d.quarters gridScale
  let unit := pow2 k * pow10 gridScale
  let below := if m == pow2 52 && k != 0 then 1 else 2
  let low := (4 * m - below) * unit
  let high := (4 * m + 2) * unit
  if m % 2 == 0 then low ≤ q && q ≤ high else low < q && q < high

def leadingExponent (m k : Nat) : Int :=
  let scaled := m * pow2 k * pow10 gridScale / pow2 1074
  ((Nat.toDigits 10 scaled).length : Int) - 1 - gridScale

/-- The point with `n` digits that reads back, the nearer of two, and of two as near the even. -/
def onGrid (m k : Nat) (leading : Int) (n : Nat) : Option Decimal :=
  let exponent := leading + 1 - n
  let value := 4 * m * pow2 k * pow10 gridScale
  let step := (Decimal.mk 1 exponent).quarters gridScale
  let low : Decimal := ⟨value / step, exponent⟩
  let high : Decimal := ⟨value / step + 1, exponent⟩
  match readsBack m k low, readsBack m k high with
  | true, true =>
      let r := value % step
      some (if 2 * r < step || (2 * r == step && low.digits % 2 == 0) then low else high)
  | true, false => some low
  | false, true => some high
  | false, false => none

def shortest (m k : Nat) : Decimal :=
  if m == 0 then ⟨0, 0⟩
  else
    let leading := leadingExponent m k
    ((List.range 17).findSome? fun n => onGrid m k leading (n + 1)).getD ⟨0, 0⟩

/-- How a number is written: positionally if the exponent of its leading digit is at least
`lowest` and below `limit`, else with an exponent of at least two digits. -/
structure NumberStyle where
  lowest : Int
  limit : Int

def NumberStyle.standard : NumberStyle := ⟨-4, 16⟩

def stripZeros (digits : List Char) : List Char :=
  (digits.reverse.dropWhile (· == '0')).reverse

def NumberStyle.write (style : NumberStyle) (digits : List Char) (leading : Int) : List Char :=
  if style.lowest ≤ leading && leading < style.limit then
    if leading < 0 then
      '0' :: '.' :: List.replicate (-leading - 1).toNat '0' ++ digits
    else
      let whole := leading.toNat + 1
      let fraction := digits.drop whole
      digits.take whole ++ List.replicate (whole - digits.length) '0' ++
        '.' :: (if fraction.isEmpty then ['0'] else fraction)
  else
    let exponent := Nat.toDigits 10 leading.natAbs
    digits.take 1 ++ (if digits.length ≤ 1 then [] else '.' :: digits.drop 1) ++
      'e' :: (if leading < 0 then '-' else '+') ::
      List.replicate (2 - exponent.length) '0' ++ exponent

def Binary64.text (x : Binary64) : String :=
  let sign := if x.negative then "-" else ""
  match x.magnitude with
  | .infinite => sign ++ "inf"
  | .finite m k =>
      if m == 0 then sign ++ "0.0"
      else
        let d := shortest m k
        let all := Nat.toDigits 10 d.digits
        sign ++ String.ofList (NumberStyle.standard.write (stripZeros all)
          (d.exponent + all.length - 1))

end NativeBinding.Number
