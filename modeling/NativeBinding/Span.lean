/-!
Places in a text. Lines and columns count from one, columns in characters, and a line ends only at
a line feed. A span names a file and a range whose end is one past its last character; any part of
it may be unknown.
-/

namespace NativeBinding

structure Position where
  line : Nat
  column : Nat
  deriving DecidableEq

def Position.start : Position := ⟨1, 1⟩

def Position.after (p : Position) (c : Char) : Position :=
  if c == '\n' then ⟨p.line + 1, 1⟩ else ⟨p.line, p.column + 1⟩

structure Span where
  file : Option String := none
  line : Option Int := none
  column : Option Int := none
  endLine : Option Int := none
  endColumn : Option Int := none
  deriving DecidableEq

def Span.between (file : Option String) (start stop : Position) : Span :=
  ⟨file, some start.line, some start.column, some stop.line, some stop.column⟩

def Span.at (file : Option String) (p : Position) : Span :=
  ⟨file, some p.line, some p.column, none, none⟩

def Span.known (s : Span) : Bool :=
  s.line.isSome

/-- The form `file:line:column`, with a mark for each unknown part. An empty file name counts as
unknown. -/
def Span.short (s : Span) : String :=
  let file := match s.file with
    | some name => if name.isEmpty then "<unknown>" else name
    | none => "<unknown>"
  let part (n : Option Int) := (n.map toString).getD "?"
  file ++ ":" ++ part s.line ++ ":" ++ part s.column

end NativeBinding
