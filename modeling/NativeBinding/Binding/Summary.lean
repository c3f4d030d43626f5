import NativeBinding.Binding.ArgsList
import NativeBinding.Binding.Dispatch
import NativeBinding.Grammar.Terminal

/-!
Classification of attributes. Each attribute contributes on its own, whatever stands around it:
`Attribute.contributions`. A summary takes contributions in order. The first dispatch kind, the
first name and the first well-formed signature request win, later ones become findings, and
everything else accumulates. What no rule knows is passed through.
-/

namespace NativeBinding

structure SignatureRequest where
  text : Option String
  span : Span
  deriving DecidableEq

inductive Contribution
  | kind (kind : Dispatch) (span : Span)
  | name (name : String) (span : Span)
  | mark (m : ArgMark)
  /-- Without a request the attribute is malformed. -/
  | signature (request : Option SignatureRequest) (span : Span)
  | docLine (line : String)
  | deprecation (notice : String)
  | passthrough (a : Attribute)
  | finding (f : Finding)

def Contribution.fail (f : Fault) (span : Span) : Contribution :=
  .finding ⟨f, span⟩

def dispatchTags : List (String × Dispatch × Option String) :=
  [("new", .constructor, none), ("__new__", .constructor, some "#[new]"),
   ("call", .callOperator, none), ("__call__", .callOperator, some "#[call]"),
   ("classmethod", .classMethod, none), ("staticmethod", .staticMethod, none),
   ("classattr", .classAttribute, none), ("getter", .getter, none), ("setter", .setter, none)]

def disabledTags : List String :=
  ["init", "__init__"]

def propertyTags : List String :=
  ["getter", "setter"]

def bindingTags : List String :=
  dispatchTags.map (·.1) ++ disabledTags

/-- A name or raw name, with or without one line feed at its end. -/
def isPropertyName (name : String) : Bool :=
  let cs := name.toList
  let named (cs : List Char) := Grammar.identLength cs == some cs.length
  named cs || (cs.getLast? == some '\n' && named cs.dropLast)

namespace Attribute

def propertyName (a : Attribute) : List AttrArg → Contribution
  | [.path p] =>
      match p.segments with
      | [name] => .name name p.span
      | _ => .fail .propertyNameShape p.span
  | [.literal l] =>
      match l.str? with
      | none => .fail .propertyNameType l.span
      | some name =>
          if isPropertyName name then .name name l.span
          else .fail (.propertyNameIdent name) l.span
  | [.assign _ _ span] => .fail .propertyNameShape span
  | _ => .fail .propertyNameCount a.span

def kindTag (a : Attribute) (kind : Dispatch) (replacement : Option String) : List Contribution :=
  let tag := a.name
  let property := propertyTags.contains tag
  let deprecated := match replacement with
    | some other => [.deprecation s!"`#[{tag}]` is deprecated; use `{other}` instead"]
    | none => []
  let inner := if property && a.inner then [.fail .innerProperty a.span] else []
  let set := .kind kind a.path.span
  deprecated ++ inner ++ match a.form with
    | .value _ => [.fail (.unexpectedValue tag) a.span, set]
    | .list args =>
        if property then [set, a.propertyName args]
        else
          match args with
          | [] => [set]
          | arg :: _ => [.fail (.unexpectedArguments tag) arg.span, set]
    | .word => [set]

def exportOption : AttrArg → Contribution
  | .assign p value span =>
      if p.segments == ["name"] then
        match value.str? with
        | some name => .name name span
        | none => .fail .nameType value.span
      else .fail (.unknownExportOption p.text) span
  | .path p => .fail (.unknownExportOption p.text) p.span
  | .literal l => .fail (.unknownExportOption "literal") l.span

def signatureContribution (a : Attribute) : Contribution :=
  match a.form with
  | .word => .signature (some ⟨none, a.span⟩) a.span
  | .list _ => .signature none a.span
  | .value l => .signature (l.str?.map fun text => ⟨some text, l.span⟩) a.span

def argsContributions (items : List AttrArg) : List Contribution :=
  (readArgs items).filterMap fun
    | .mark m => some (.mark m)
    | .separator => none
    | .fault f => some (.finding f)

def formerName (a : Attribute) (l : Literal) : List Contribution :=
  match l.str? with
  | some name =>
      [.deprecation "`#[name = ...]` is deprecated; use `#[export(name = ...)]` instead",
       .name name a.span]
  | none => [.fail .nameType l.span]

def contributions (a : Attribute) : List Contribution :=
  if disabledTags.contains a.name then [.fail .initDisabled a.span]
  else
    match dispatchTags.lookup a.name with
    | some (kind, replacement) => a.kindTag kind replacement
    | none =>
        match a.name, a.form with
        | "args", .list items => argsContributions items
        | "export", .list items => items.map exportOption
        | "name", .value l => a.formerName l
        | "text_signature", _ => [a.signatureContribution]
        | "doc", .value ⟨.str line, _⟩ => [.docLine line]
        | _, _ => [.passthrough a]

end Attribute

structure Summary where
  kind : Option (Dispatch × Span) := none
  name : Option (String × Span) := none
  marks : List ArgMark := []
  signature : Option SignatureRequest := none
  docLines : List String := []
  deprecations : List String := []
  passthrough : List Attribute := []
  findings : List Finding := []

namespace Summary

def report (s : Summary) (f : Fault) (span : Span) : Summary :=
  { s with findings := s.findings ++ [⟨f, span⟩] }

def take (s : Summary) : Contribution → Summary
  | .kind kind span =>
      match s.kind with
      | some (_, first) => s.report (.secondKind first) span
      | none => { s with kind := some (kind, span) }
  | .name name span =>
      match s.name with
      | some (_, first) => s.report (.secondName first) span
      | none => { s with name := some (name, span) }
  | .mark m => { s with marks := s.marks ++ [m] }
  | .signature request span =>
      match s.signature, request with
      | some _, _ => s.report .secondSignature span
      | none, some r => { s with signature := some r }
      | none, none => s.report .signatureForm span
  | .docLine line => { s with docLines := s.docLines ++ [line] }
  | .deprecation notice => { s with deprecations := s.deprecations ++ [notice] }
  | .passthrough a => { s with passthrough := s.passthrough ++ [a] }
  | .finding f => { s with findings := s.findings ++ [f] }

def dispatch (s : Summary) : Dispatch :=
  (s.kind.map (·.1)).getD .plain

/-- A kind that forces the name admits no other. -/
def checkName (s : Summary) : Summary :=
  match s.kind, s.name with
  | some (kind, _), some (_, span) =>
      if kind.rules.forcedName?.isSome then s.report (.nameNotAllowed kind.rules.label) span else s
  | _, _ => s

def ofAttributes (attrs : List Attribute) : Summary :=
  ((attrs.flatMap Attribute.contributions).foldl take {}).checkName

end Summary

end NativeBinding
