import NativeBinding.Proofs.Binding.Accepted
import NativeBinding.Proofs.Except

/-!
Lookups of assembly. A stage takes for granted what another one has established: that a tag stands
in the table, that a list of one item has a first, that a converted receiver is declared with a
type. Here each stage looks before it takes, and a lookup without an answer ends it. No stage ends
so: each gives what it gives without looking.
-/

namespace NativeBinding

inductive Lookup
  | tag
  | attrValue
  | item
  | segment
  | itemPath
  | itemValue
  | missingMessage
  | refusal
  | firstParam
  | typedParam
  | paramName
  | typeArg

variable {α : Type}

def found (l : Lookup) : Option α → Except Lookup α
  | some a => .ok a
  | none => .error l

@[simp] theorem found_some (l : Lookup) (a : α) : found l (some a) = .ok a := rfl

@[simp] theorem ok_bind {β : Type} (a : α) (f : α → Except Lookup β) :
    (Except.ok a >>= f) = f a := rfl

@[simp] theorem pure_eq_ok (a : α) : (pure a : Except Lookup α) = .ok a := rfl

theorem mapM_eq_ok {β : Type} {f : α → Except Lookup β} {g : α → β} {as : List α}
    (h : ∀ a ∈ as, f a = .ok (g a)) : as.mapM f = .ok (as.map g) := by
  induction as with
  | nil => rfl
  | cons a as ih =>
    rw [List.forall_mem_cons] at h
    rw [List.mapM_cons, h.1, ih h.2]
    rfl

namespace Attribute

def args? (a : Attribute) : Option (List AttrArg) :=
  match a.form with
  | .list args => some args
  | _ => none

def value? (a : Attribute) : Option Literal :=
  match a.form with
  | .value l => some l
  | _ => none

end Attribute

namespace AttrArg

def path? : AttrArg → Option AttrPath
  | path p => some p
  | assign p _ _ => some p
  | literal _ => none

def value? : AttrArg → Option Literal
  | assign _ value _ => some value
  | _ => none

end AttrArg

def Param.typed? : Param → Option TypedParam
  | self _ => none
  | typed p => some p

def ReceiverPolicy.missing? : ReceiverPolicy → Option String
  | required missing => some missing
  | classObject missing => some missing
  | forbidden => none

def SignaturePolicy.refusal? : SignaturePolicy → Option (String × String)
  | refused code message => some (code, message)
  | allowed _ => none

def AttrPath.isChecked (p : AttrPath) (name : String) : Except Lookup Bool :=
  if p.segments.length == 1 then do return (← found .segment p.segments.head?) == name
  else return false

theorem AttrPath.isChecked_eq (p : AttrPath) (name : String) :
    p.isChecked name = .ok (p.segments == [name]) := by
  obtain ⟨segments, span⟩ := p
  rcases segments with _ | ⟨s, _ | ⟨t, segments⟩⟩ <;> simp [isChecked]

namespace ArgsState

def readChecked (s : ArgsState) (item : AttrArg) : Except Lookup ItemOutcome :=
  match item with
  | .literal l =>
      return if l.str? == some "*" then s.readSeparator l.span else .fail .argsLiteral l.span
  | _ => do
      let p ← found .itemPath item.path?
      if p.segments.length != 1 then return .fail (.argsPath p.text) p.span
      let name ← found .segment p.segments.head?
      match item with
      | .path _ => return s.beforeKwargs item.span (.mark ⟨name, s.ordinary none, item.span⟩)
      | _ => return s.readAssign name (← found .itemValue item.value?) item.span

theorem readChecked_eq (s : ArgsState) (item : AttrArg) :
    s.readChecked item = .ok (s.read item) := by
  rcases item with ⟨segments, span⟩ | ⟨⟨segments, span⟩, value, whole⟩ | l
  · rcases segments with _ | ⟨n, _ | ⟨m, segments⟩⟩ <;>
      simp [readChecked, read, AttrArg.path?, AttrArg.span]
  · rcases segments with _ | ⟨n, _ | ⟨m, segments⟩⟩ <;>
      simp [readChecked, read, AttrArg.path?, AttrArg.value?, AttrArg.span]
  · rfl

def readAllChecked : ArgsState → List AttrArg → Except Lookup (List ItemOutcome)
  | _, [] => return []
  | s, item :: items => do
      let outcome ← s.readChecked item
      return outcome :: (← (s.after outcome).readAllChecked items)

theorem readAllChecked_eq (s : ArgsState) (items : List AttrArg) :
    s.readAllChecked items = .ok (s.readAll items) := by
  induction items generalizing s with
  | nil => rfl
  | cons item items ih => simp [readAllChecked, readAll, readChecked_eq, ih]

end ArgsState

namespace Attribute

def propertyNameChecked (a : Attribute) : Except Lookup Contribution := do
  let args := a.args?.getD []
  if args.length != 1 then return .fail .propertyNameCount a.span
  match ← found .item args.head? with
  | .path p =>
      if p.segments.length == 1 then return .name (← found .segment p.segments.head?) p.span
      else return .fail .propertyNameShape p.span
  | .literal l =>
      match l.str? with
      | none => return .fail .propertyNameType l.span
      | some name =>
          if isPropertyName name then return .name name l.span
          else return .fail (.propertyNameIdent name) l.span
  | .assign _ _ span => return .fail .propertyNameShape span

def kindTagChecked (a : Attribute) : Except Lookup (List Contribution) := do
  let (kind, replacement) ← found .tag (dispatchTags.lookup a.name)
  let property := propertyTags.contains a.name
  let deprecated := match replacement with
    | some other => [.deprecation s!"`#[{a.name}]` is deprecated; use `{other}` instead"]
    | none => []
  let inner := if property && a.inner then [.fail .innerProperty a.span] else []
  let set := .kind kind a.path.span
  if a.value?.isSome then
    return deprecated ++ inner ++ [.fail (.unexpectedValue a.name) a.span, set]
  if a.args?.isSome && property then
    return deprecated ++ inner ++ [set, ← a.propertyNameChecked]
  let args := a.args?.getD []
  if !args.isEmpty then
    let arg ← found .item args.head?
    return deprecated ++ inner ++ [.fail (.unexpectedArguments a.name) arg.span, set]
  return deprecated ++ inner ++ [set]

def exportOptionChecked (item : AttrArg) : Except Lookup Contribution :=
  match item with
  | .assign p _ span => do
      if ← p.isChecked "name" then
        let value ← found .itemValue item.value?
        match value.str? with
        | some name => return .name name span
        | none => return .fail .nameType value.span
      else return .fail (.unknownExportOption p.text) span
  | .path p => return .fail (.unknownExportOption p.text) p.span
  | .literal l => return .fail (.unknownExportOption "literal") l.span

def formerNameChecked (a : Attribute) : Except Lookup (List Contribution) := do
  return a.formerName (← found .attrValue a.value?)

def signatureChecked (a : Attribute) : Except Lookup Contribution := do
  if a.args?.isNone && a.value?.isNone then return .signature (some ⟨none, a.span⟩) a.span
  if a.args?.isSome then return .signature none a.span
  let l ← found .attrValue a.value?
  return .signature (l.str?.map fun text => ⟨some text, l.span⟩) a.span

def plainChecked (a : Attribute) : Except Lookup (List Contribution) := do
  if a.name == "args" && a.args?.isSome then
    return (← ArgsState.readAllChecked {} (a.args?.getD [])).filterMap fun
      | .mark m => some (.mark m)
      | .separator => none
      | .fault f => some (.finding f)
  if a.name == "export" && a.args?.isSome then return ← (a.args?.getD []).mapM exportOptionChecked
  if a.name == "name" && a.value?.isSome then return ← a.formerNameChecked
  if a.name == "text_signature" then return [← a.signatureChecked]
  if a.name == "doc" && a.value?.isSome then
    let l ← found .attrValue a.value?
    if let some line := l.str? then return [.docLine line]
  return [.passthrough a]

def contributionsChecked (a : Attribute) : Except Lookup (List Contribution) :=
  if disabledTags.contains a.name then return [.fail .initDisabled a.span]
  else if (dispatchTags.lookup a.name).isSome then a.kindTagChecked
  else a.plainChecked

end Attribute

def Summary.ofAttributesChecked (attrs : List Attribute) : Except Lookup Summary := do
  let contributions ← attrs.mapM Attribute.contributionsChecked
  return (contributions.flatten.foldl take {}).checkName

namespace Attribute

theorem propertyNameChecked_eq {a : Attribute} {args : List AttrArg} (h : a.form = .list args) :
    a.propertyNameChecked = .ok (a.propertyName args) := by
  have hargs : a.args? = some args := by rw [args?, h]
  rcases args with _ | ⟨arg, _ | ⟨arg', args⟩⟩
  · simp [propertyNameChecked, propertyName, hargs]
  · rcases arg with ⟨segments, span⟩ | ⟨⟨segments, span⟩, value, whole⟩ | l
    · rcases segments with _ | ⟨n, _ | ⟨m, segments⟩⟩ <;>
        simp [propertyNameChecked, propertyName, hargs]
    · simp [propertyNameChecked, propertyName, hargs]
    · cases hl : l.str? <;> simp [propertyNameChecked, propertyName, hargs, hl]
      split <;> rfl
  · simp [propertyNameChecked, propertyName, hargs]

theorem kindTagChecked_eq {a : Attribute} {kind : Dispatch} {replacement : Option String}
    (h : dispatchTags.lookup a.name = some (kind, replacement)) :
    a.kindTagChecked = .ok (a.kindTag kind replacement) := by
  rw [kindTagChecked, h, kindTag.eq_def]
  cases hform : a.form with
  | word => cases replacement <;> simp [value?, args?, hform]
  | value l => cases replacement <;> simp [value?, hform]
  | list args =>
    have hname := propertyNameChecked_eq hform
    by_cases hproperty : a.name ∈ propertyTags
    · cases replacement <;> simp [value?, args?, hform, hproperty, hname]
    · cases args <;> cases replacement <;> simp [value?, args?, hform, hproperty]

theorem exportOptionChecked_eq (item : AttrArg) :
    exportOptionChecked item = .ok (exportOption item) := by
  cases item with
  | path p | literal l => rfl
  | assign p value span =>
    simp only [exportOptionChecked, exportOption, AttrPath.isChecked_eq, AttrArg.value?, found_some,
      ok_bind]
    split
    · cases value.str? <;> rfl
    · rfl

theorem signatureChecked_eq (a : Attribute) : a.signatureChecked = .ok a.signatureContribution := by
  cases hform : a.form <;> simp [signatureChecked, signatureContribution, args?, value?, hform]

theorem contributionsChecked_eq (a : Attribute) :
    a.contributionsChecked = .ok a.contributions := by
  rw [contributionsChecked, contributions.eq_def]
  split
  · rfl
  · cases hlookup : dispatchTags.lookup a.name with
    | some set => simpa using kindTagChecked_eq hlookup
    | none =>
      rw [Option.isSome_none, if_neg Bool.false_ne_true]
      dsimp only
      split
      · next items hname hform =>
        simp [plainChecked, hname, args?, hform, ArgsState.readAllChecked_eq]
        rfl
      · next items hname hform =>
        have hitems := mapM_eq_ok fun item (_ : item ∈ items) => exportOptionChecked_eq item
        simp [plainChecked, hname, args?, hform, hitems]
      · next l hname hform =>
        simp [plainChecked, hname, value?, hform, formerNameChecked]
      · next hname => simp [plainChecked, hname, signatureChecked_eq]
      · next line span hname hform =>
        simp [plainChecked, hname, value?, hform, Literal.str?]
      · next hsignature hargs hexport hformer hdoc =>
        replace hsignature : a.name ≠ "text_signature" := hsignature
        cases hform : a.form with
        | word => simp [plainChecked, args?, value?, hform, hsignature]
        | list items =>
          have hargs : a.name ≠ "args" := fun h => hargs items h hform
          have hexport : a.name ≠ "export" := fun h => hexport items h hform
          simp [plainChecked, args?, value?, hform, hsignature, hargs, hexport]
        | value l =>
          have hformer : a.name ≠ "name" := fun h => hformer l h hform
          have hdoc (h : a.name = "doc") : l.str? = none := by
            obtain ⟨_ | _ | _ | _, span⟩ := l
            case str line => exact (hdoc line span h hform).elim
            all_goals rfl
          simp only [plainChecked, args?, value?, hform]
          by_cases h : a.name = "doc" <;> simp_all

end Attribute

theorem Summary.ofAttributesChecked_eq (attrs : List Attribute) :
    ofAttributesChecked attrs = .ok (ofAttributes attrs) := by
  rw [ofAttributesChecked, mapM_eq_ok fun a _ => a.contributionsChecked_eq, ofAttributes,
    List.flatMap_def]
  rfl

def Receiver.ofParamChecked : Param → Except Lookup Receiver
  | .self p => return if p.mutable then mutablyBorrowed else borrowed
  | p => return converted (← found .typedParam p.typed?).type.span

def Resolution.ofFirstChecked (label : String) (declSpan : Option Span) (selfType : Option String)
    (policy : ReceiverPolicy) (first : Option Param) : Except Lookup Resolution :=
  match policy with
  | .required _ => do
      if first.any (·.isReceiverShaped selfType) then
        return ⟨← Receiver.ofParamChecked (← found .firstParam first), true, []⟩
      let message ← found .missingMessage policy.missing?
      let span := (first.map Param.span).getD (declSpan.getD {})
      return ⟨.none, false, [⟨.missingReceiver message, span⟩]⟩
  | .classObject _ =>
      match first with
      | none => do
          let message ← found .missingMessage policy.missing?
          return ⟨.none, false, [⟨.missingClassParameter message, declSpan.getD {}⟩]⟩
      | some (.self p) => return ⟨.none, true, [⟨.receiverNotAllowed label, p.span⟩]⟩
      | some (.typed _) => return ⟨.none, true, []⟩
  | .forbidden =>
      match first with
      | some (.self p) => return ⟨.none, true, [⟨.receiverNotAllowed label, p.span⟩]⟩
      | _ => return ⟨.none, false, []⟩

def Dispatch.resolveChecked (kind : Dispatch) (params : List Param) (declSpan : Option Span)
    (selfType : Option String) : Except Lookup Resolution := do
  let rules := kind.rules
  let r ← Resolution.ofFirstChecked rules.label declSpan selfType rules.receiver params.head?
  return { r with findings := strayReceivers params ++ r.findings }

def receiverNameChecked (receiver : Receiver) (params : List Param) :
    Except Lookup (Option String) :=
  match receiver with
  | .converted _ => do
      let first ← found .firstParam params.head?
      return (← found .typedParam first.typed?).name?
  | _ => return none

theorem Receiver.ofParamChecked_eq (p : Param) :
    ofParamChecked p = .ok (ofParam p) := by
  cases p <;> rfl

theorem Resolution.ofFirstChecked_eq (label : String) (declSpan : Option Span)
    (selfType : Option String) (policy : ReceiverPolicy) (first : Option Param) :
    ofFirstChecked label declSpan selfType policy first =
      .ok (ofFirst label declSpan selfType policy first) := by
  cases policy with
  | required missing =>
    cases first with
    | none => rfl
    | some p =>
      by_cases hshape : p.isReceiverShaped selfType
      · simp [ofFirstChecked, ofFirst, Receiver.ofParamChecked_eq, hshape]
      · simp [ofFirstChecked, ofFirst, ReceiverPolicy.missing?, hshape]
  | classObject missing => rcases first with _ | _ | _ <;> rfl
  | forbidden => rcases first with _ | _ | _ <;> rfl

theorem Dispatch.resolveChecked_eq (kind : Dispatch) (params : List Param) (declSpan : Option Span)
    (selfType : Option String) :
    kind.resolveChecked params declSpan selfType =
      .ok (kind.resolve params declSpan selfType) := by
  simp [resolveChecked, Resolution.ofFirstChecked_eq, resolve]

theorem Resolution.head?_of_converted {label : String} {declSpan : Option Span}
    {selfType : Option String} {policy : ReceiverPolicy} {first : Option Param} {s : Span}
    (h : (ofFirst label declSpan selfType policy first).receiver = .converted s) :
    ∃ p, first = some (.typed p) := by
  rw [ofFirst.eq_def] at h
  split at h
  case h_2 p =>
    split at h
    · cases p with
      | self p =>
        rw [Receiver.ofParam] at h
        split at h <;> cases h
      | typed p => exact ⟨p, rfl⟩
    · cases h
  all_goals cases h

theorem receiverNameChecked_eq (kind : Dispatch) (params : List Param) (declSpan : Option Span)
    (selfType : Option String) :
    receiverNameChecked (kind.resolve params declSpan selfType).receiver params =
      .ok (receiverName? (kind.resolve params declSpan selfType).receiver params) := by
  cases h : (kind.resolve params declSpan selfType).receiver with
  | converted s =>
    obtain ⟨p, hp⟩ := Resolution.head?_of_converted h
    obtain ⟨rest, rfl⟩ := List.head?_eq_some_iff.1 hp
    rfl
  | none | borrowed | mutablyBorrowed => rfl

def signatureOfChecked (rules : DispatchRules) (request : SignatureRequest)
    (params : List PlannedParam) : Except Lookup (Except Fault String) :=
  match rules.signature with
  | .refused .. => do
      let (code, message) ← found .refusal rules.signature.refusal?
      return .error (.signatureNotAllowed code message)
  | .allowed _ => return signatureOf rules request params

def textsOfChecked (rules : DispatchRules) (s : Summary) (d : Decl) (params : List PlannedParam) :
    Except Lookup Texts := do
  let native := unraw d.name
  let (name, derived) := externalName rules (s.name.map (·.1)) native
  let nameSpan := (s.name.map (·.2)).getD d.nameSpan
  let (signature, refused) : Option String × List Finding ←
    match s.signature with
    | none => pure (none, [])
    | some request =>
        match ← signatureOfChecked rules request params with
        | .ok text => pure (some text, [])
        | .error f => pure (none, [⟨f, request.span⟩])
  let doc := docText s.docLines name signature
  return { name, signature, doc
           findings := derived.map (⟨·, d.nameSpan⟩) ++ (nameFaults name).map (⟨·, nameSpan⟩) ++
             refused ++ if doc.toList.contains '\x00' then [⟨.nulInDoc, d.span⟩] else [] }

theorem signatureOfChecked_eq (rules : DispatchRules) (request : SignatureRequest)
    (params : List PlannedParam) :
    signatureOfChecked rules request params = .ok (signatureOf rules request params) := by
  rw [signatureOfChecked, signatureOf]
  cases rules.signature with
  | refused code message => rfl
  | allowed subject => rfl

theorem textsOfChecked_eq (rules : DispatchRules) (s : Summary) (d : Decl)
    (params : List PlannedParam) :
    textsOfChecked rules s d params = .ok (textsOf rules s d params) := by
  rw [textsOfChecked, textsOf]
  cases s.signature with
  | none => rfl
  | some request =>
    simp only [signatureOfChecked_eq, ok_bind]
    cases signatureOf rules request params <;> rfl

def surplusChecked (rules : DispatchRules) (rest : List Param) : Except Lookup (List Finding) := do
  if rules.takesParams || rest.isEmpty then return []
  let p ← found .firstParam rest.head?
  return [⟨.classAttributeArguments, p.span⟩]

def TypedParam.namedChecked (p : TypedParam) : Except Lookup (String × TypedParam) := do
  return (← found .paramName p.name?, p)

def namedParamsChecked (params : List Param) : Except Lookup (List (String × TypedParam)) :=
  ((params.filterMap Param.typed?).filter (·.name?.isSome)).mapM TypedParam.namedChecked

def TypeExpr.optionArgChecked : TypeExpr → Except Lookup (Option TypeExpr)
  | path segments _ args _ =>
      if segments.getLast? == some "Option" && args.length == 1 then
        return some (← found .typeArg args.head?)
      else return none
  | _ => return none

def planParamChecked (contextTypes : List String) (table : MarkTable)
    (named : String × TypedParam) : Except Lookup PlannedParam := do
  let name := unraw named.1
  let p := named.2
  let context := p.type.isContext contextTypes
  return {
    name
    type := p.type
    role := if context then .positional else table.roleOf name
    default? := if context then none else table.defaultOf name
    isContext := context
    isOptional := (← p.type.optionArgChecked).isSome
    span := p.span }

theorem surplusChecked_eq (rules : DispatchRules) (rest : List Param) :
    surplusChecked rules rest =
      .ok (if rules.takesParams then []
        else (rest.head?.map fun p => ⟨.classAttributeArguments, p.span⟩).toList) := by
  cases h : rules.takesParams <;> cases rest <;> simp [surplusChecked, h]

theorem namedParamsChecked_eq (params : List Param) :
    namedParamsChecked params = .ok (namedParams params) := by
  induction params with
  | nil => rfl
  | cons p ps ih =>
    cases p with
    | self p => exact ih
    | typed p =>
      cases hname : p.name? with
      | none => simpa [namedParamsChecked, namedParams, Param.typed?, hname] using ih
      | some name =>
        have hp : p.namedChecked = .ok (name, p) := by simp [TypedParam.namedChecked, hname]
        rw [namedParamsChecked] at ih
        simp [namedParamsChecked, namedParams, Param.typed?, hname, hp, ih]

theorem TypeExpr.optionArgChecked_eq (t : TypeExpr) : t.optionArgChecked = .ok t.optionArg? := by
  cases t with
  | path segments lifetimes args span =>
    rcases args with _ | ⟨arg, _ | ⟨arg', args⟩⟩
    · simp [optionArgChecked, optionArg?]
    · simp only [optionArgChecked, optionArg?, List.length_singleton, beq_self_eq_true,
        Bool.and_true]
      split <;> rfl
    · simp [optionArgChecked, optionArg?]
  | _ => rfl

theorem planParamChecked_eq (contextTypes : List String) (table : MarkTable)
    (named : String × TypedParam) :
    planParamChecked contextTypes table named = .ok (planParam contextTypes table named) := by
  simp only [planParamChecked, TypeExpr.optionArgChecked_eq, ok_bind]
  rfl

def FnDecl.verdictChecked (contextTypes : List String) (d : FnDecl) : Except Lookup Verdict := do
  let s ← Summary.ofAttributesChecked d.attrs
  let rules := s.dispatch.rules
  let result := d.result.getD .unit
  let r ← s.dispatch.resolveChecked d.params (some d.span) d.selfType?
  let rest := if r.skipFirst then d.params.tail else d.params
  let surplus ← surplusChecked rules rest
  let receiverName ← receiverNameChecked r.receiver d.params
  let named ← namedParamsChecked rest
  let (table, marking) := MarkTable.build s.marks (named.map (·.1)) receiverName
  let planned ← named.mapM (planParamChecked contextTypes table)
  let params := planned.filter (!·.isContext)
  let texts ← textsOfChecked rules s (.fn d) params
  return .of
    { dispatch := s.dispatch
      receiver := r.receiver
      nativeName := d.name
      externalName := texts.name
      nativeParams := planned
      result
      doc := texts.doc
      signature := texts.signature
      deprecations := s.deprecations
      span := d.span }
    (s.findings ++ d.asyncFindings ++ genericFindings d.generics ++ blockFindings d.block ++
      implArgumentFindings d.params ++ resultFindings result ++ r.findings ++ surplus ++
      patternFindings rest ++ marking ++ contextFindings table planned ++ checkOrder params ++
      texts.findings)

def ConstDecl.verdictChecked (d : ConstDecl) : Except Lookup Verdict := do
  let s ← Summary.ofAttributesChecked d.attrs
  let texts ← textsOfChecked Dispatch.classAttribute.rules s (.const d) []
  return .of
    { dispatch := .classAttribute
      receiver := .none
      nativeName := d.name
      externalName := texts.name
      nativeParams := []
      result := d.type
      doc := texts.doc
      signature := none
      deprecations := s.deprecations
      span := d.span }
    (s.findings ++ d.dispatchFindings s ++ blockFindings d.block ++ resultFindings d.type ++
      (MarkTable.build s.marks [] none).2 ++ texts.findings)

def Decl.verdictChecked (contextTypes : List String) : Decl → Except Lookup Verdict
  | fn d => d.verdictChecked contextTypes
  | const d => d.verdictChecked

theorem FnDecl.verdictChecked_eq (types : List String) (d : FnDecl) :
    d.verdictChecked types = .ok (d.verdict types) := by
  simp only [verdictChecked, Summary.ofAttributesChecked_eq, Dispatch.resolveChecked_eq,
    surplusChecked_eq, receiverNameChecked_eq, namedParamsChecked_eq, textsOfChecked_eq, ok_bind,
    mapM_eq_ok fun named _ => planParamChecked_eq types _ named]
  rfl

theorem ConstDecl.verdictChecked_eq (d : ConstDecl) : d.verdictChecked = .ok d.verdict := by
  simp only [verdictChecked, Summary.ofAttributesChecked_eq, textsOfChecked_eq, ok_bind]
  rfl

theorem Decl.verdictChecked_eq (types : List String) (d : Decl) :
    d.verdictChecked types = .ok (d.verdict types) := by
  cases d with
  | fn d => exact d.verdictChecked_eq types
  | const d => exact d.verdictChecked_eq

end NativeBinding
