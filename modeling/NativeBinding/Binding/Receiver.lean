import NativeBinding.Binding.Dispatch
import NativeBinding.Binding.Fault
import NativeBinding.Decl.Basic

/-!
Receivers. The first declared parameter decides whether and how the receiver object is bound, under
the policy of the dispatch kind. A typed parameter can receive where its type mentions `Self` or the
type of the block around it.
-/

namespace NativeBinding

inductive Receiver
  | none
  | borrowed
  | mutablyBorrowed
  /-- The object is converted to the declared type at this place, which can fail. -/
  | converted (typeSpan : Span)
  deriving DecidableEq

namespace Receiver

def name : Receiver → String
  | none => "none"
  | borrowed => "immutable_borrow"
  | mutablyBorrowed => "mutable_borrow"
  | converted _ => "fallible_conversion"

def present : Receiver → Bool
  | none => false
  | _ => true

def span? : Receiver → Option Span
  | converted s => some s
  | _ => Option.none

def ofParam : Param → Receiver
  | .self p => if p.mutable then mutablyBorrowed else borrowed
  | .typed p => converted p.type.span

end Receiver

namespace Param

def isSelf : Param → Bool
  | self _ => true
  | typed _ => false

def isReceiverShaped (selfType : Option String) : Param → Bool
  | self _ => true
  | typed p => p.type.mentionsSelf selfType

end Param

structure Resolution where
  receiver : Receiver
  /-- The first parameter is used up by the receiver or the class object. -/
  skipFirst : Bool
  findings : List Finding

def strayReceivers (params : List Param) : List Finding :=
  (params.tail.filter Param.isSelf).map fun p => ⟨.unexpectedReceiver, p.span⟩

def Resolution.ofFirst (label : String) (declSpan : Option Span) (selfType : Option String) :
    ReceiverPolicy → Option Param → Resolution
  | .required missing, none => ⟨.none, false, [⟨.missingReceiver missing, declSpan.getD {}⟩]⟩
  | .required missing, some p =>
      if p.isReceiverShaped selfType then ⟨.ofParam p, true, []⟩
      else ⟨.none, false, [⟨.missingReceiver missing, p.span⟩]⟩
  | .classObject missing, none =>
      ⟨.none, false, [⟨.missingClassParameter missing, declSpan.getD {}⟩]⟩
  | .classObject _, some (.self p) => ⟨.none, true, [⟨.receiverNotAllowed label, p.span⟩]⟩
  | .classObject _, some (.typed _) => ⟨.none, true, []⟩
  | .forbidden, some (.self p) => ⟨.none, true, [⟨.receiverNotAllowed label, p.span⟩]⟩
  | .forbidden, _ => ⟨.none, false, []⟩

def Dispatch.resolve (kind : Dispatch) (params : List Param) (declSpan : Option Span)
    (selfType : Option String) : Resolution :=
  let rules := kind.rules
  let r := Resolution.ofFirst rules.label declSpan selfType rules.receiver params.head?
  { r with findings := strayReceivers params ++ r.findings }

end NativeBinding
