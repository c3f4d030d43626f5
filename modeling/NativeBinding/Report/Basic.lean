import NativeBinding.Binding.Assemble
import NativeBinding.Decl.Parse
import NativeBinding.File.Directory
import NativeBinding.Text.Utf8

/-!
Reports. A source contributes its exported declarations, or one diagnostic if it has none to give.
Each declaration gets a verdict, whose diagnostics enter the log as one batch after those of the
sources. A report keeps the verdicts in order of sources and declarations, and the diagnostics in
order of place. How many workers share the declarations can show only in the order in which the
batches arrive; `Report.ofSources` takes that of one worker.
-/

namespace NativeBinding

inductive SourceFault
  | unreadable (cause : FileFault)
  | undecodable (cause : Text.Utf8.Error)
  deriving DecidableEq

namespace SourceFault

def message (path : Path) : SourceFault → String
  | unreadable e => "cannot read source: " ++ e.message path
  | undecodable e => "cannot read source: " ++ e.message

def diagnostic (f : SourceFault) (path : Path) : Diagnostic where
  message := f.message path
  kind := some .parseError
  code := some "unreadable-source"
  phase := some "parser"
  span := { file := some path.text }

end SourceFault

structure Source where
  path : Path
  text : Except SourceFault String

def Source.ofBytes (path : Path) : Except FileFault (List UInt8) → Source
  | .error e => ⟨path, .error (.unreadable e)⟩
  | .ok bytes =>
      match Text.Utf8.decode bytes with
      | .error e => ⟨path, .error (.undecodable e)⟩
      | .ok cs => ⟨path, .ok (String.ofList (Text.normalizeLines cs))⟩

inductive Reading
  | failure (d : Diagnostic)
  | declarations (ds : List Decl)

namespace Reading

def failure? : Reading → Option Diagnostic
  | failure d => some d
  | declarations _ => none

def decls : Reading → List Decl
  | failure _ => []
  | declarations ds => ds

end Reading

def Source.reading (s : Source) : Except Number.Oversized Reading :=
  match s.text with
  | .error f => .ok (.failure (f.diagnostic s.path))
  | .ok text =>
      match SourceFile.parse text (some s.path.text) with
      | .ok file => .ok (.declarations (file.declarations.filter Decl.isExported))
      | .error (.rejected cause span) => .ok (.failure (cause.diagnostic span))
      | .error (.oversized e) => .error e

structure Report where
  verdicts : List (Decl × Verdict)
  diagnostics : List Diagnostic

namespace Report

def ofFailure (d : Diagnostic) : Report :=
  ⟨[], [d]⟩

/-- The log when batches of diagnostics arrive in some order. -/
def logOf (failures : List Diagnostic) (batches : List (List Diagnostic)) : DiagnosticLog :=
  batches.foldl DiagnosticLog.extend ⟨failures⟩

/-- The report when the batches of the verdicts arrive in some order. -/
def ofArrivals (failures : List Diagnostic) (verdicts : List (Decl × Verdict))
    (batches : List (List Diagnostic)) : Report :=
  ⟨verdicts, Diagnostic.sort (logOf failures batches).entries⟩

def ofReadings (contextTypes : List String) (rs : List Reading) : Report :=
  let verdicts := (rs.flatMap Reading.decls).map fun d => (d, d.verdict contextTypes)
  ofArrivals (rs.filterMap Reading.failure?) verdicts (verdicts.map (·.2.diagnostics))

def ofSources (contextTypes : List String) (sources : List Source) :
    Except Number.Oversized Report :=
  (sources.mapM Source.reading).map (ofReadings contextTypes)

def plans (r : Report) : List CallPlan :=
  r.verdicts.filterMap (·.2.plan?)

def hasErrors (r : Report) : Bool :=
  r.diagnostics.any Diagnostic.isError

def exitCode (r : Report) : Nat :=
  if r.hasErrors then 1 else 0

end Report

end NativeBinding
