import NativeBinding.Decl.OfTree
import NativeBinding.Diagnostic
import NativeBinding.Grammar.Read

/-!
Parsing declaration files. A text that is rejected has one cause and the place it was found at. An
integer literal with too many digits is no matter of the grammar and is kept apart.
-/

namespace NativeBinding

inductive ParseCause
  | unexpected (u : Grammar.Unexpected)
  | escape (e : EscapeError)
  | count (found : Nat)
  deriving DecidableEq

def ParseCause.message : ParseCause → String
  | unexpected .ending => "unexpected end of input"
  | unexpected (.token text) => "unexpected token '" ++ text ++ "'"
  | unexpected (.character c) => "unexpected character '" ++ String.ofList [c] ++ "'"
  | escape e => e.message
  | count found => "expected exactly one declaration, found " ++ toString found

inductive ParseError
  | rejected (cause : ParseCause) (span : Span)
  | oversized (cause : Number.Oversized)
  deriving DecidableEq

def ParseCause.diagnostic (cause : ParseCause) (span : Span) : Diagnostic where
  message := cause.message
  kind := some .parseError
  code := some "parse-error"
  phase := some "parser"
  span := span

def ParseError.ofLiteral : BadLiteral → ParseError
  | .escape e span => .rejected (.escape e) span
  | .oversized e => .oversized e

def SourceFile.parse (text : String) (file : Option String := none) :
    Except ParseError SourceFile :=
  match Grammar.read text.toList with
  | .error e => .error (.rejected (.unexpected e.cause) (.at file e.position))
  | .ok items => (SourceFile.ofTrees file items).mapError ParseError.ofLiteral

/-- Parses a text with exactly one declaration, free or in one block. -/
def Decl.parse (text : String) (file : Option String := none) : Except ParseError Decl := do
  let source ← SourceFile.parse text file
  match source.declarations with
  | [d] => return d
  | ds => throw (.rejected (.count ds.length) { file })

end NativeBinding
