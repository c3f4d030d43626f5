import NativeBinding.Json.Value
import NativeBinding.Report.Basic

/-!
The two forms of a report. As JSON it is one object, on one line, with its members in a fixed order.
For a reader each plan is one line of output; warnings about deprecated attributes and the
diagnostics with their notes are lines apart from it.
-/

namespace NativeBinding

open Json (ofOption ofStrings)

def Diagnostic.toJson (d : Diagnostic) : Json :=
  .obj
    [("phase", ofOption .str d.phase),
     ("kind", ofOption (.str ·.name) d.kind),
     ("code", ofOption .str d.code),
     ("message", .str d.message),
     ("severity", .str d.severity),
     ("file", ofOption .str d.span.file),
     ("line", ofOption .int d.span.line),
     ("column", ofOption .int d.span.column),
     ("notes", ofStrings d.notes)]

def PlannedParam.toJson (p : PlannedParam) : Json :=
  .obj
    [("name", .str p.name),
     ("type", .str p.type.render),
     ("role", .str p.role.name),
     ("default", ofOption .str p.default?),
     ("context_handle", .bool p.isContext),
     ("optional", .bool p.isOptional)]

def CallPlan.toJson (p : CallPlan) : Json :=
  .obj
    [("binding_kind", .str p.dispatch.name),
     ("receiver", .str p.receiver.name),
     ("native_name", .str p.nativeName),
     ("external_name", .str p.externalName),
     ("parameters", .arr (p.nativeParams.map PlannedParam.toJson)),
     ("return_type", .str p.result.render),
     ("doc", .str p.doc),
     ("text_signature", ofOption .str p.signature),
     ("deprecations", ofStrings p.deprecations),
     ("file", ofOption .str p.span.file),
     ("line", ofOption .int p.span.line)]

def Report.toJson (r : Report) : Json :=
  .obj
    [("exit_code", .int r.exitCode),
     ("specs", .arr (r.plans.map CallPlan.toJson)),
     ("diagnostics", .arr (r.diagnostics.map Diagnostic.toJson))]

/-- One line `place: kind native -> external(parameters)`. -/
def CallPlan.summary (p : CallPlan) : String :=
  let signature :=
    p.signature.getD (renderSignature p.dispatch.rules.signatureSubject? p.params)
  p.span.short ++ ": " ++ p.dispatch.name ++ " " ++ p.nativeName ++ " -> " ++ p.externalName ++
    signature

def CallPlan.warnings (p : CallPlan) : List String :=
  p.deprecations.map fun notice => p.span.short ++ ": warning: " ++ notice

def Diagnostic.lines (d : Diagnostic) : List String :=
  d.render :: d.notes.map ("  note: " ++ ·)

def Report.summaries (r : Report) : List String :=
  r.plans.map CallPlan.summary

def Report.remarks (r : Report) : List String :=
  r.plans.flatMap CallPlan.warnings ++ r.diagnostics.flatMap Diagnostic.lines

end NativeBinding
