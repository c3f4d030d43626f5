import NativeBinding.Binding.Signature

/-!
Assembly: a declaration and its attributes become a call plan, or the findings that forbid it. Every
check runs whatever the others found, so one pass reports all independent problems. A verdict is
either a plan without findings or findings without a plan.
-/

namespace NativeBinding

inductive Verdict
  | accepted (plan : CallPlan)
  | rejected (findings : List Finding)

namespace Verdict

def plan? : Verdict → Option CallPlan
  | accepted p => some p
  | rejected _ => none

def findings : Verdict → List Finding
  | accepted _ => []
  | rejected fs => fs

def state : Verdict → String
  | accepted _ => "ASSEMBLED"
  | rejected _ => "REJECTED"

def of (plan : CallPlan) : List Finding → Verdict
  | [] => accepted plan
  | f :: fs => rejected (f :: fs)

end Verdict

/-- Functions are always candidates for export, constants only with a binding tag. -/
def Decl.isExported : Decl → Bool
  | fn _ => true
  | const d => d.attrs.any fun a => bindingTags.contains a.name

def genericFindings (generics : List GenericParam) : List Finding :=
  (generics.filter (·.kind != .lifetime)).map fun g => ⟨.genericParameter, g.span⟩

def blockFindings : Option ImplHeader → List Finding
  | none => []
  | some h =>
      (h.generics.filter (·.kind != .lifetime)).map fun g => ⟨.genericImpl g.name, g.span⟩

def resultFindings (t : TypeExpr) : List Finding :=
  (t.findImpl?.map fun found => ⟨.implReturn, found.span⟩).toList

def propertyName? (stem native : String) : Option String :=
  if stem.toList.isPrefixOf native.toList then
    some (String.ofList (native.toList.drop stem.length))
  else none

def externalName (rules : DispatchRules) (override : Option String) (native : String) :
    String × List Fault :=
  match rules.name, override with
  | .forced name, _ => (name, [])
  | _, some name => (unraw name, [])
  | .own, none => (native, [])
  | .property stem, none =>
      match propertyName? stem native with
      | none => (native, [])
      | some name =>
          if name.isEmpty then (native, [.emptyPropertyName native rules.label]) else (name, [])

def nameFaults (name : String) : List Fault :=
  if name.isEmpty then [.emptyName] else if name.toList.contains '\x00' then [.nulInName] else []

def renderDoc (lines : List String) : String :=
  "\n".intercalate (lines.map fun line =>
    match line.toList with
    | ' ' :: rest => String.ofList rest
    | _ => line)

/-- The documentation of a plan; a signature stands before it with the name. -/
def docText (lines : List String) (name : String) : Option String → String
  | none => renderDoc lines
  | some signature => name ++ signature ++ "\n--\n\n" ++ renderDoc lines

structure Texts where
  name : String
  signature : Option String
  doc : String
  findings : List Finding

def textsOf (rules : DispatchRules) (s : Summary) (d : Decl) (params : List PlannedParam) : Texts :=
  let native := unraw d.name
  let (name, derived) := externalName rules (s.name.map (·.1)) native
  let nameSpan := (s.name.map (·.2)).getD d.nameSpan
  let (signature, refused) : Option String × List Finding :=
    match s.signature with
    | none => (none, [])
    | some request =>
        match signatureOf rules request params with
        | .ok text => (some text, [])
        | .error f => (none, [⟨f, request.span⟩])
  let doc := docText s.docLines name signature
  { name, signature, doc
    findings := derived.map (⟨·, d.nameSpan⟩) ++ (nameFaults name).map (⟨·, nameSpan⟩) ++
      refused ++ if doc.toList.contains '\x00' then [⟨.nulInDoc, d.span⟩] else [] }

def FnDecl.asyncFindings (d : FnDecl) : List Finding :=
  (d.asyncSpan.map (⟨.asyncFn, ·⟩)).toList

def implArgumentFindings (params : List Param) : List Finding :=
  params.filterMap fun
    | .self _ => none
    | .typed p => p.type.findImpl?.map fun found => ⟨.implArgument, found.span⟩

def FnDecl.selfType? (d : FnDecl) : Option String :=
  d.block.bind fun h => h.subject.lastSegment?

def TypedParam.name? (p : TypedParam) : Option String :=
  match p.pattern with
  | .name name _ => some name
  | _ => none

def namedParams (params : List Param) : List (String × TypedParam) :=
  params.filterMap fun
    | .self _ => none
    | .typed p => p.name?.map (·, p)

def patternFindings (params : List Param) : List Finding :=
  params.filterMap fun
    | .self _ => none
    | .typed p => if p.name?.isSome then none else some ⟨.unsupportedPattern, p.span⟩

/-- The name by which a converted receiver is declared. -/
def receiverName? (receiver : Receiver) (params : List Param) : Option String :=
  match receiver, params with
  | .converted _, .typed p :: _ => p.name?
  | _, _ => none

/-- A context handle ignores every mark. -/
def planParam (contextTypes : List String) (table : MarkTable) (named : String × TypedParam) :
    PlannedParam :=
  let name := unraw named.1
  let p := named.2
  let context := p.type.isContext contextTypes
  { name
    type := p.type
    role := if context then .positional else table.roleOf name
    default? := if context then none else table.defaultOf name
    isContext := context
    isOptional := p.type.optionArg?.isSome
    span := p.span }

def contextFindings (table : MarkTable) (params : List PlannedParam) : List Finding :=
  (params.filter fun p => p.isContext && table.contains p.name).map fun p =>
    ⟨.contextHandleMark p.name, p.span⟩

def FnDecl.verdict (contextTypes : List String) (d : FnDecl) : Verdict :=
  let s := Summary.ofAttributes d.attrs
  let rules := s.dispatch.rules
  let result := d.result.getD .unit
  let r := s.dispatch.resolve d.params (some d.span) d.selfType?
  let rest := if r.skipFirst then d.params.tail else d.params
  let named := namedParams rest
  let (table, marking) :=
    MarkTable.build s.marks (named.map (·.1)) (receiverName? r.receiver d.params)
  let planned := named.map (planParam contextTypes table)
  let params := planned.filter (!·.isContext)
  let texts := textsOf rules s (.fn d) params
  let surplus : List Finding :=
    if rules.takesParams then []
    else (rest.head?.map fun p => ⟨.classAttributeArguments, p.span⟩).toList
  .of
    { dispatch := s.dispatch
      receiver := r.receiver
      nativeName := d.name
      externalName := texts.name
      nativeParams := planned
      result
      doc := texts.doc
      signature := texts.signature
      deprecations := s.deprecations
      span := d.span }
    (s.findings ++ d.asyncFindings ++ genericFindings d.generics ++ blockFindings d.block ++
      implArgumentFindings d.params ++ resultFindings result ++ r.findings ++ surplus ++
      patternFindings rest ++ marking ++ contextFindings table planned ++ checkOrder params ++
      texts.findings)

def ConstDecl.dispatchFindings (d : ConstDecl) (s : Summary) : List Finding :=
  match s.kind with
  | some (.classAttribute, _) => []
  | some (_, span) => [⟨.constantDispatch, span⟩]
  | none => [⟨.constantDispatch, d.nameSpan⟩]

def ConstDecl.verdict (d : ConstDecl) : Verdict :=
  let s := Summary.ofAttributes d.attrs
  let texts := textsOf Dispatch.classAttribute.rules s (.const d) []
  .of
    { dispatch := .classAttribute
      receiver := .none
      nativeName := d.name
      externalName := texts.name
      nativeParams := []
      result := d.type
      doc := texts.doc
      signature := none
      deprecations := s.deprecations
      span := d.span }
    (s.findings ++ d.dispatchFindings s ++ blockFindings d.block ++ resultFindings d.type ++
      (MarkTable.build s.marks [] none).2 ++ texts.findings)

def defaultContextTypes : List String :=
  ["Python"]

def Decl.verdict (contextTypes : List String) : Decl → Verdict
  | fn d => d.verdict contextTypes
  | const d => d.verdict

def Verdict.diagnostics (v : Verdict) : List Diagnostic :=
  v.findings.map Finding.diagnostic

end NativeBinding
