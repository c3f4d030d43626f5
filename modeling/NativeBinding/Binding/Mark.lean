import NativeBinding.Binding.Fault
import NativeBinding.Decl.Basic

/-!
Argument marks. A mark says how the parameter of its name is passed, and the default of those that
may have one. A table keeps one mark for each parameter: the first that names it. Names are compared
without their raw mark.
-/

namespace NativeBinding

inductive Role
  | positional
  | keywordOnly
  | variadicPositional
  | variadicKeyword
  deriving DecidableEq

namespace Role

def all : List Role :=
  [positional, keywordOnly, variadicPositional, variadicKeyword]

def name : Role → String
  | positional => "positional"
  | keywordOnly => "keyword_only"
  | variadicPositional => "variadic_positional"
  | variadicKeyword => "variadic_keyword"

def ofName? (s : String) : Option Role :=
  all.find? (·.name == s)

def isVariadic : Role → Bool
  | variadicPositional | variadicKeyword => true
  | positional | keywordOnly => false

end Role

inductive MarkForm
  | positional (default? : Option String)
  | keywordOnly (default? : Option String)
  | variadicPositional
  | variadicKeyword
  deriving DecidableEq

def MarkForm.of : Role → Option String → MarkForm
  | .positional, d => .positional d
  | .keywordOnly, d => .keywordOnly d
  | .variadicPositional, _ => .variadicPositional
  | .variadicKeyword, _ => .variadicKeyword

structure ArgMark where
  name : String
  form : MarkForm
  span : Span
  deriving DecidableEq

namespace ArgMark

def role (m : ArgMark) : Role :=
  match m.form with
  | .positional _ => .positional
  | .keywordOnly _ => .keywordOnly
  | .variadicPositional => .variadicPositional
  | .variadicKeyword => .variadicKeyword

def default? (m : ArgMark) : Option String :=
  match m.form with
  | .positional d | .keywordOnly d => d
  | .variadicPositional | .variadicKeyword => none

/-- What is wrong with `later`, where `first` marks the same parameter. -/
def conflict (first later : ArgMark) : Fault :=
  if first.role.isVariadic && later.role.isVariadic && first.role != later.role then
    .variadicConflict later.name first.span
  else if (first.role.isVariadic || later.role.isVariadic) &&
      (first.default?.isSome || later.default?.isSome) then
    .defaultOnVariadic later.name first.span
  else .secondMark later.name first.span

end ArgMark

structure MarkTable where
  /-- Names without raw mark, each once. -/
  entries : List (String × ArgMark) := []

namespace MarkTable

def find? (t : MarkTable) (name : String) : Option ArgMark :=
  t.entries.lookup (unraw name)

def contains (t : MarkTable) (name : String) : Bool :=
  (t.find? name).isSome

def size (t : MarkTable) : Nat :=
  t.entries.length

def defaultOf (t : MarkTable) (name : String) : Option String :=
  (t.find? name).bind ArgMark.default?

def marksAs (t : MarkTable) (name : String) (r : Role) : Bool :=
  (t.find? name).any (·.role == r)

def roleOf (t : MarkTable) (name : String) : Role :=
  ((t.find? name).map ArgMark.role).getD .positional

/-- Enters one mark, or finds out why not. `known` holds the parameters, `receiver` is the name of
the one that takes the receiver. -/
def add (known : List String) (receiver : Option String) (t : MarkTable) (m : ArgMark) :
    MarkTable × List Finding :=
  let name := unraw m.name
  if !known.contains name then
    (t, [⟨.unknownParameter name (receiver == some name), m.span⟩])
  else
    match t.entries.lookup name with
    | some first => (t, [⟨first.conflict m, m.span⟩])
    | none => (⟨t.entries ++ [(name, m)]⟩, [])

def addAll (known : List String) (receiver : Option String) :
    MarkTable → List ArgMark → MarkTable × List Finding
  | t, [] => (t, [])
  | t, m :: ms =>
      let (t₁, found) := t.add known receiver m
      let (t₂, rest) := t₁.addAll known receiver ms
      (t₂, found ++ rest)

/-- The table of some marks over the parameters of a function. An empty receiver name is none. -/
def build (marks : List ArgMark) (params : List String) (receiver : Option String) :
    MarkTable × List Finding :=
  addAll (params.map unraw) ((receiver.filter (!·.isEmpty)).map unraw) {} marks

end MarkTable

end NativeBinding
