import NativeBinding.Body.Inert

/-!
Function bodies are opaque to the grammar. `mask` overwrites the inside of every body with spaces
and keeps its line breaks, so each line and column of the declarations around it stays. The word
`fn` opens a signature, `;` ends it, and the first brace in it opens the body. A body without its
closing brace stays as it is, with all that follows.
-/

namespace NativeBinding.Body

open Text

/-- Cells before the brace that closes the outermost of `depth + 1` open ones. -/
def closing : Nat → List Cell → Option Nat
  | _, [] => none
  | depth, c :: cs =>
      if c.inert then (closing depth cs).map (· + 1)
      else if c.char == '{' then (closing (depth + 1) cs).map (· + 1)
      else if c.char == '}' then
        match depth with
        | 0 => some 0
        | depth + 1 => (closing depth cs).map (· + 1)
      else (closing depth cs).map (· + 1)

def startsFn : List Cell → Bool
  | f :: n :: rest => f.char == 'f' && n.char == 'n' && !(rest.head?.any fun c => isWord c.char)
  | _ => false

inductive Mode
  | scan (inSignature : Bool)
  | blank (remaining : Nat)
  | copy

def blankOut (c : Char) : Char :=
  if c == '\n' then c else ' '

def maskCells : Mode → Option Char → List Cell → List Char
  | _, _, [] => []
  | .copy, _, c :: cs => c.char :: maskCells .copy (some c.char) cs
  | .blank (n + 1), _, c :: cs => blankOut c.char :: maskCells (.blank n) (some c.char) cs
  | .blank 0, _, c :: cs => c.char :: maskCells (.scan false) (some c.char) cs
  | .scan inSignature, prev, c :: cs =>
      let next : Mode :=
        if c.inert then .scan inSignature
        else if !prev.any isWord && startsFn (c :: cs) then .scan true
        else if inSignature && c.char == ';' then .scan false
        else if inSignature && c.char == '{' then
          match closing 0 cs with
          | some n => .blank n
          | none => .copy
        else .scan inSignature
      c.char :: maskCells next (some c.char) cs

def mask (text : List Char) : List Char :=
  maskCells (.scan false) none (cells text)

theorem maskCells_length (mode : Mode) (prev : Option Char) (cs : List Cell) :
    (maskCells mode prev cs).length = cs.length := by
  induction cs generalizing mode prev with
  | nil => simp [maskCells]
  | cons c cs ih =>
    match mode with
    | .scan _ | .copy | .blank 0 | .blank (_ + 1) => simp [maskCells, ih]

theorem mask_length (text : List Char) : (mask text).length = text.length := by
  have h := congrArg List.length (cells_char text)
  rw [List.length_map] at h
  rw [mask, maskCells_length, h]

end NativeBinding.Body
