import NativeBinding.Binding.Mark
import NativeBinding.Binding.Receiver

/-!
Call plans: all that is needed to emit the wrapper of one declaration. Parameters stand in declared
order, context handles among them; the runtime passes the others.
-/

namespace NativeBinding

structure PlannedParam where
  name : String
  type : TypeExpr
  role : Role
  default? : Option String
  isContext : Bool
  isOptional : Bool
  span : Span

def PlannedParam.effectiveDefault? (p : PlannedParam) : Option String :=
  p.default? <|> if p.isOptional then some "None" else none

structure CallPlan where
  dispatch : Dispatch
  receiver : Receiver
  nativeName : String
  externalName : String
  /-- All parameters but the receiver or class object. -/
  nativeParams : List PlannedParam
  result : TypeExpr
  doc : String
  signature : Option String
  deprecations : List String
  span : Span

namespace CallPlan

def params (p : CallPlan) : List PlannedParam :=
  p.nativeParams.filter (!·.isContext)

def contextParams (p : CallPlan) : List PlannedParam :=
  p.nativeParams.filter (·.isContext)

def varargs? (p : CallPlan) : Option PlannedParam :=
  p.params.find? (·.role == .variadicPositional)

def kwargs? (p : CallPlan) : Option PlannedParam :=
  p.params.find? (·.role == .variadicKeyword)

def cName (p : CallPlan) : String :=
  p.externalName.push '\x00'

def cDoc (p : CallPlan) : String :=
  p.doc.push '\x00'

end CallPlan

end NativeBinding
