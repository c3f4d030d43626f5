import NativeBinding.Text.Blank
import NativeBinding.Text.Digit

/-!
Integers in decimal. A text may hold at most `maxDigits` digits, leading zeros included: reading
longer ones would take quadratic time. In the loose form an integer may have blanks around it, a
sign of either kind, and single underscores between its digits.
-/

namespace NativeBinding.Number

open Text

def maxDigits : Nat := 4300

structure Oversized where
  digits : Nat
  deriving DecidableEq

def Oversized.message (o : Oversized) : String :=
  "Exceeds the limit (" ++ toString maxDigits ++ " digits) for integer string conversion: value " ++
    "has " ++ toString o.digits ++
    " digits; use sys.set_int_max_str_digits() to increase the limit"

def natOfDigits (cs : List Char) : Except Oversized Nat :=
  if cs.length ≤ maxDigits then .ok (digitsToNat cs) else .error ⟨cs.length⟩

def intOfDigits : List Char → Except Oversized Int
  | '-' :: cs => (natOfDigits cs).map fun n => -(n : Int)
  | cs => (natOfDigits cs).map fun n => (n : Int)

/-- The digits of a text in which single underscores stand between digits. `digit` says whether a
digit comes before the text. -/
def groupedDigits : Bool → List Char → Option (List Char)
  | digit, [] => if digit then some [] else none
  | digit, c :: cs =>
      if isDigit c then (groupedDigits true cs).map (c :: ·)
      else if c == '_' && digit then groupedDigits false cs
      else none

def isPadding (c : Char) : Bool :=
  isBlank c && !(0x1c ≤ c.toNat && c.toNat ≤ 0x1f)

def readLoose? (s : String) : Option Int :=
  let cs := ((s.toList.dropWhile isPadding).reverse.dropWhile isPadding).reverse
  let unsigned := match cs with
    | '+' :: cs | '-' :: cs => cs
    | cs => cs
  (groupedDigits false unsigned).bind fun digits =>
    (natOfDigits digits).toOption.map fun n => if cs.head? == some '-' then -(n : Int) else n

end NativeBinding.Number
