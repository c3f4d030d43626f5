import NativeBinding.Span

/-!
Diagnostics and the log that collects them. A log keeps the order of its entries, and a batch stays
in one piece.
-/

namespace NativeBinding

inductive ErrorKind
  | structuralConflict
  | attributeConflict
  | missingReceiver
  | unsupportedParameterShape
  | illegalAttributePlacement
  | unknownParameter
  | ambiguousPropertyName
  | parseError
  | configError
  deriving DecidableEq

namespace ErrorKind

def all : List ErrorKind :=
  [structuralConflict, attributeConflict, missingReceiver, unsupportedParameterShape,
   illegalAttributePlacement, unknownParameter, ambiguousPropertyName, parseError, configError]

def name : ErrorKind → String
  | structuralConflict => "structural-conflict"
  | attributeConflict => "attribute-conflict"
  | missingReceiver => "missing-receiver"
  | unsupportedParameterShape => "unsupported-parameter-shape"
  | illegalAttributePlacement => "illegal-attribute-placement"
  | unknownParameter => "unknown-parameter"
  | ambiguousPropertyName => "ambiguous-property-name"
  | parseError => "parse-error"
  | configError => "config-error"

def ofName? (s : String) : Option ErrorKind :=
  all.find? (·.name == s)

end ErrorKind

structure Diagnostic where
  message : String
  kind : Option ErrorKind := none
  code : Option String := none
  phase : Option String := none
  severity : String := "error"
  span : Span := {}
  notes : List String := []
  deriving DecidableEq

namespace Diagnostic

def isError (d : Diagnostic) : Bool :=
  d.severity == "error"

def render (d : Diagnostic) : String :=
  d.span.short ++ ": " ++ d.severity ++ ": " ++ d.message

/-- The file, line and column a report is sorted by. What is unknown comes first. -/
def key (d : Diagnostic) : String × Int × Int :=
  (d.span.file.getD "", d.span.line.getD 0, d.span.column.getD 0)

def ordered (a b : Diagnostic) : Bool :=
  let (fileA, lineA, columnA) := a.key
  let (fileB, lineB, columnB) := b.key
  if fileA != fileB then fileA < fileB
  else if lineA != lineB then lineA < lineB
  else columnA ≤ columnB

def sort (ds : List Diagnostic) : List Diagnostic :=
  ds.mergeSort ordered

end Diagnostic

structure DiagnosticLog where
  entries : List Diagnostic := []

namespace DiagnosticLog

def append (log : DiagnosticLog) (d : Diagnostic) : DiagnosticLog :=
  ⟨log.entries ++ [d]⟩

def extend (log : DiagnosticLog) (batch : List Diagnostic) : DiagnosticLog :=
  ⟨log.entries ++ batch⟩

def hasErrors (log : DiagnosticLog) : Bool :=
  log.entries.any Diagnostic.isError

def size (log : DiagnosticLog) : Nat :=
  log.entries.length

end DiagnosticLog

end NativeBinding
