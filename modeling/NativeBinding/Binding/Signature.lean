import NativeBinding.Binding.Plan
import NativeBinding.Binding.Summary

/-!
Text signatures and the order of parameters. A signature lists the parameters as the runtime reads
them: `*args` and `**kwargs` for the variadic ones, a lone `*` before the first keyword-only
parameter unless a variadic positional came first, and `=` before a default.
-/

namespace NativeBinding

def PlannedParam.signaturePart (p : PlannedParam) : String :=
  match p.effectiveDefault? with
  | some d => p.name ++ "=" ++ d
  | none => p.name

/-- The parts of a signature. `starred` says whether a star has been written. -/
def signatureParts : Bool → List PlannedParam → List String
  | _, [] => []
  | starred, p :: ps =>
      match p.role with
      | .variadicPositional => ("*" ++ p.name) :: signatureParts true ps
      | .variadicKeyword => ("**" ++ p.name) :: signatureParts starred ps
      | .keywordOnly =>
          if starred then p.signaturePart :: signatureParts true ps
          else "*" :: p.signaturePart :: signatureParts true ps
      | .positional => p.signaturePart :: signatureParts starred ps

def renderSignature (subject : Option String) (params : List PlannedParam) : String :=
  "(" ++ ", ".intercalate (subject.toList ++ signatureParts false params) ++ ")"

/-- The first positional parameter that has no default but follows one that has. -/
def requiredAfterDefault? : Bool → List PlannedParam → Option PlannedParam
  | _, [] => none
  | seen, p :: ps =>
      if p.role != .positional then requiredAfterDefault? seen ps
      else if p.default?.isSome || p.isOptional then requiredAfterDefault? true ps
      else if seen then some p
      else requiredAfterDefault? seen ps

def isParenthesized (text : String) : Bool :=
  text.toList.head? == some '(' && text.toList.getLast? == some ')'

def signatureOf (rules : DispatchRules) (request : SignatureRequest) (params : List PlannedParam) :
    Except Fault String :=
  match rules.signature with
  | .refused code message => .error (.signatureNotAllowed code message)
  | .allowed subject =>
      match request.text with
      | some text => if isParenthesized text then .ok text else .error .signatureShape
      | none =>
          match requiredAfterDefault? false params with
          | some p => .error (.requiredAfterDefault p.name)
          | none => .ok (renderSignature subject params)

structure OrderState where
  varargs : Option String := none
  keywordOnly : Option String := none
  kwargs : Option String := none

namespace OrderState

def fault? (s : OrderState) (p : PlannedParam) : Option Fault :=
  match s.kwargs, p.role with
  | some kwargs, _ => some (.paramAfterKwargs p.name kwargs)
  | none, .variadicKeyword | none, .keywordOnly => none
  | none, .variadicPositional => s.keywordOnly.map (.varargsAfterKeywordOnly p.name)
  | none, .positional =>
      match s.varargs with
      | some varargs => some (.positionalAfterVarargs p.name varargs)
      | none => s.keywordOnly.map (.positionalAfterKeywordOnly p.name)

def after (s : OrderState) (p : PlannedParam) : OrderState :=
  match s.kwargs, p.role with
  | some _, _ | none, .positional => s
  | none, .variadicKeyword => { s with kwargs := some p.name }
  | none, .keywordOnly => { s with keywordOnly := s.keywordOnly <|> some p.name }
  | none, .variadicPositional => { s with varargs := some p.name }

def check : OrderState → List PlannedParam → List Finding
  | _, [] => []
  | s, p :: ps => ((s.fault? p).map (⟨·, p.span⟩)).toList ++ (s.after p).check ps

end OrderState

/-- Declared order is calling order: positional parameters, then a variadic positional, then
keyword-only ones, then a variadic keyword. -/
def checkOrder (params : List PlannedParam) : List Finding :=
  OrderState.check {} params

end NativeBinding
