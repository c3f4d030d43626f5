/-!
How the runtime dispatches to a declaration. Everything that depends on the kind of dispatch stands
in one table, so the stages of assembly consult a row and never a kind.
-/

namespace NativeBinding

inductive Dispatch
  | plain
  | constructor
  | callOperator
  | classMethod
  | staticMethod
  | classAttribute
  | getter
  | setter
  deriving DecidableEq

inductive ReceiverPolicy
  | required (missing : String)
  | forbidden
  /-- The first parameter takes the class object, which is no receiver. -/
  | classObject (missing : String)
  deriving DecidableEq

inductive NamePolicy
  | own
  /-- The native name loses `stem` if it starts with it. -/
  | property (stem : String)
  | forced (name : String)
  deriving DecidableEq

inductive SignaturePolicy
  /-- A generated text starts with the pseudo-parameter `subject`. -/
  | allowed (subject : Option String)
  | refused (code message : String)
  deriving DecidableEq

structure DispatchRules where
  label : String
  receiver : ReceiverPolicy
  takesParams : Bool
  name : NamePolicy
  signature : SignaturePolicy
  deriving DecidableEq

namespace Dispatch

def all : List Dispatch :=
  [plain, constructor, callOperator, classMethod, staticMethod, classAttribute, getter, setter]

def name : Dispatch → String
  | plain => "plain"
  | constructor => "constructor"
  | callOperator => "call"
  | classMethod => "classmethod"
  | staticMethod => "staticmethod"
  | classAttribute => "classattr"
  | getter => "getter"
  | setter => "setter"

def ofName? (s : String) : Option Dispatch :=
  all.find? (·.name == s)

def rules : Dispatch → DispatchRules
  | plain =>
      { label := "method"
        receiver := .required "static method needs #[staticmethod] attribute"
        takesParams := true
        name := .own
        signature := .allowed (some "$self") }
  | constructor =>
      { label := "#[new]"
        receiver := .forbidden
        takesParams := true
        name := .forced "__new__"
        signature := .refused "text-signature-on-constructor"
          ("text_signature not allowed on __new__; if you want to add a signature on " ++
            "__new__, put it on the class definition instead") }
  | callOperator =>
      { label := "#[call]"
        receiver := .required "expected receiver for #[call]"
        takesParams := true
        name := .forced "__call__"
        signature := .refused "text-signature-on-call" "text_signature not allowed with #[call]" }
  | classMethod =>
      { label := "#[classmethod]"
        receiver := .classObject "expected class object parameter for #[classmethod]"
        takesParams := true
        name := .own
        signature := .allowed (some "$cls") }
  | staticMethod =>
      { label := "#[staticmethod]"
        receiver := .forbidden
        takesParams := true
        name := .own
        signature := .allowed none }
  | classAttribute =>
      { label := "#[classattr]"
        receiver := .forbidden
        takesParams := false
        name := .own
        signature := .refused "text-signature-on-classattr"
          "text_signature not allowed with #[classattr]" }
  | getter =>
      { label := "#[getter]"
        receiver := .required "expected receiver for #[getter]"
        takesParams := true
        name := .property "get_"
        signature := .refused "text-signature-on-getter"
          "text_signature not allowed with #[getter]" }
  | setter =>
      { label := "#[setter]"
        receiver := .required "expected receiver for #[setter]"
        takesParams := true
        name := .property "set_"
        signature := .refused "text-signature-on-setter"
          "text_signature not allowed with #[setter]" }

end Dispatch

namespace DispatchRules

def forcedName? (r : DispatchRules) : Option String :=
  match r.name with
  | .forced name => some name
  | _ => none

def signatureSubject? (r : DispatchRules) : Option String :=
  match r.signature with
  | .allowed subject => subject
  | .refused _ _ => none

end DispatchRules

end NativeBinding
