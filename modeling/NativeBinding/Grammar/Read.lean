import NativeBinding.Body.Mask
import NativeBinding.Grammar.Step

/-!
Reading a text. Function bodies are masked first. Then, at each place, the state says which
terminals may be recognised there; gaps are passed over and lexemes are fed to the state. Reading
stops at the first lexeme that no declaration file has at that place.
-/

namespace NativeBinding.Grammar

inductive Unexpected
  | ending
  | token (text : String)
  | character (c : Char)
  deriving DecidableEq

structure Failure where
  cause : Unexpected
  position : Position
  deriving DecidableEq

def Position.past (p : Position) (cs : List Char) : Position :=
  cs.foldl Position.after p

/-- Why no lexeme is expected at the head of a text. A character that starts no lexeme at all is
shown as it stands in `source`, the text before masking. -/
def misfit (p : Position) (source : List Char) (c : Char) (cs : List Char) : Failure :=
  match scanAnything (c :: cs) with
  | some n => ⟨.token (String.ofList ((c :: cs).take n)), p⟩
  | none => ⟨.character (source.head?.getD c), p⟩

/-- Reads on from a state at `p`, after `skip` more characters. `last` is where the last lexeme
starts: an unexpected end is reported there. -/
def readFrom : Nat → State → Position → Position → List Char → List Char →
    Except Failure (List ItemTree)
  | _, state, last, _, _, [] =>
      match state.finish? with
      | some items => .ok items
      | none => .error ⟨.ending, last⟩
  | skip + 1, state, last, p, source, c :: cs =>
      readFrom skip state last (p.after c) source.tail cs
  | 0, state, last, p, source, c :: cs =>
      match scan state.expects (c :: cs) with
      | .gap n => readFrom (n - 1) state last (p.after c) source.tail cs
      | .lexeme kind n =>
          let text := (c :: cs).take n
          let lexeme : Lexeme kind := ⟨String.ofList text, p, Position.past p text⟩
          match state.feed ⟨kind, lexeme⟩ with
          | some next => readFrom (n - 1) next p (p.after c) source.tail cs
          | none => .error ⟨.token lexeme.text, p⟩
      | .unknown => .error (misfit p source c cs)

def readMasked (source text : List Char) : Except Failure (List ItemTree) :=
  readFrom 0 .start .start .start source text

def read (text : List Char) : Except Failure (List ItemTree) :=
  readMasked text (Body.mask text)

end NativeBinding.Grammar
