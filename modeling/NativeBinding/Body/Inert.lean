import NativeBinding.Text.Digit
import NativeBinding.Text.Word

/-!
Inert regions of a text: comments, raw strings, strings and character literals. Their characters
never open or close anything. `inertLength` measures the region that starts at the head of a text;
`cells` marks every character of a text as inert or not. A region that is not closed runs to the
end of the text. Block comments do not nest.
-/

namespace NativeBinding.Body

open Text

def throughMark (mark : List Char) : List Char → Nat
  | [] => 0
  | c :: cs => if mark.isPrefixOf (c :: cs) then mark.length else throughMark mark cs + 1

def quotedLength : List Char → Nat
  | [] => 0
  | '\\' :: _ :: cs => quotedLength cs + 2
  | '"' :: _ => 1
  | _ :: cs => quotedLength cs + 1

/-- The rest of a raw string after its `r`: hashes, a quote, and the text through the closing quote
with as many hashes. -/
def rawLength (cs : List Char) : Option Nat :=
  let hashes := cs.takeWhile (· == '#')
  match cs.drop hashes.length with
  | '"' :: body => some (hashes.length + 1 + throughMark ('"' :: hashes) body)
  | _ => none

def bracedEscapeLength : List Char → Option Nat
  | 'u' :: '{' :: cs =>
      let run := cs.takeWhile fun c => isHex c || c == '_'
      if 1 ≤ run.length && run.length ≤ 8 && ['}', '\''].isPrefixOf (cs.drop run.length)
      then some (run.length + 4) else none
  | _ => none

def byteEscapeLength : List Char → Option Nat
  | 'x' :: a :: b :: '\'' :: _ => if isHex a && isHex b then some 4 else none
  | _ => none

def plainEscapeLength : List Char → Option Nat
  | c :: '\'' :: _ => if c == '\n' then none else some 2
  | _ => none

def charLength : List Char → Option Nat
  | '\\' :: cs =>
      (bracedEscapeLength cs <|> byteEscapeLength cs <|> plainEscapeLength cs).map (· + 1)
  | c :: '\'' :: _ => if c == '\'' || c == '\n' then none else some 2
  | _ => none

/-- Length of the inert region at the head of a text, if one starts there. A raw string starts only
where the previous character ends no word. -/
def inertLength (prev : Option Char) : List Char → Option Nat
  | '/' :: '/' :: cs => some (2 + (cs.takeWhile (· != '\n')).length)
  | '/' :: '*' :: cs => some (2 + throughMark ['*', '/'] cs)
  | 'r' :: cs => if prev.any isWord then none else (rawLength cs).map (· + 1)
  | '"' :: cs => some (1 + quotedLength cs)
  | '\'' :: cs => (charLength cs).map (· + 1)
  | _ => none

structure Cell where
  char : Char
  inert : Bool
  deriving DecidableEq

/-- Marks `n` characters as inert, then looks for the next region. -/
def cellsFrom : Nat → Option Char → List Char → List Cell
  | _, _, [] => []
  | n + 1, _, c :: cs => ⟨c, true⟩ :: cellsFrom n (some c) cs
  | 0, prev, c :: cs =>
      match inertLength prev (c :: cs) with
      | some (n + 1) => ⟨c, true⟩ :: cellsFrom n (some c) cs
      | _ => ⟨c, false⟩ :: cellsFrom 0 (some c) cs

def cells (text : List Char) : List Cell :=
  cellsFrom 0 none text

theorem cellsFrom_char (n : Nat) (prev : Option Char) (text : List Char) :
    (cellsFrom n prev text).map (·.char) = text := by
  induction text generalizing n prev with
  | nil => simp [cellsFrom]
  | cons c cs ih =>
    cases n with
    | succ n => simp [cellsFrom, ih]
    | zero =>
      rw [cellsFrom]
      split <;> simp [ih]

theorem cells_char (text : List Char) : (cells text).map (·.char) = text :=
  cellsFrom_char 0 none text

end NativeBinding.Body
