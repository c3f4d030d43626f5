/-!
Blank characters: the white space and separators of Unicode, together with the four information
separators of ASCII. `strip` removes them at both ends of a text.
-/

namespace NativeBinding.Text

def isBlank (c : Char) : Bool :=
  let n := c.toNat
  (9 ≤ n && n ≤ 13) || (28 ≤ n && n ≤ 32) || n == 0x85 || n == 0xa0 || n == 0x1680 ||
    (0x2000 ≤ n && n ≤ 0x200a) || n == 0x2028 || n == 0x2029 || n == 0x202f || n == 0x205f ||
    n == 0x3000

def stripLeft (cs : List Char) : List Char :=
  cs.dropWhile isBlank

def strip (cs : List Char) : List Char :=
  (stripLeft (stripLeft cs).reverse).reverse

example : strip [' ', '\u00a0', 'a', ' ', 'b', '\n'] = ['a', ' ', 'b'] := by decide

end NativeBinding.Text
