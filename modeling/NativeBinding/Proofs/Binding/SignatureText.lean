import NativeBinding.Proofs.Binding.CallingOrder
import NativeBinding.Proofs.Binding.ItemRoles
import NativeBinding.Proofs.Binding.Tags
import NativeBinding.Proofs.Decl.Shape

/-!
Reading a generated signature. Its parts are read from the left as the runtime reads them: a star
before a name, or a lone one, makes the names behind it keyword-only, and a default follows the
first equals sign. What is read are the parameters of the plan. The roles are written by place only,
so this rests on the order that is checked; a variadic parameter shows no default, whatever its
type.
-/

namespace NativeBinding

open Grammar (IsName)

structure ShownParam where
  name : String
  role : Role
  default? : Option String
  deriving DecidableEq

def partHead (part : String) : List Char :=
  part.toList.takeWhile (· != '=')

def partDefault? (part : String) : Option String :=
  (part.toList.dropWhile (· != '=')).tail?.map String.ofList

def readPart (starred : Bool) (part : String) : ShownParam :=
  match partHead part with
  | '*' :: '*' :: name => ⟨String.ofList name, .variadicKeyword, partDefault? part⟩
  | '*' :: name => ⟨String.ofList name, .variadicPositional, partDefault? part⟩
  | name => ⟨String.ofList name, if starred then .keywordOnly else .positional, partDefault? part⟩

/-- Reads parts from the left. A lone star stands behind no other star and right before a
keyword-only part. -/
def readParts : Bool → List String → Option (List ShownParam)
  | _, [] => some []
  | starred, part :: parts =>
      if part = "*" then
        if !starred && parts.head?.any (fun next => (readPart true next).role == .keywordOnly) then
          readParts true parts
        else none
      else
        let p := readPart starred part
        (readParts (starred || p.role == .variadicPositional) parts).map (p :: ·)

theorem readParts_cons {starred : Bool} {part : String} {parts : List String} (h : part ≠ "*") :
    readParts starred (part :: parts) =
      (readParts (starred || (readPart starred part).role == .variadicPositional) parts).map
        (readPart starred part :: ·) := by
  rw [readParts, if_neg h]

theorem exists_equals_of_readParts {starred : Bool} {parts : List String} {ps : List ShownParam}
    (h : readParts starred parts = some ps) {p : ShownParam} (hp : p ∈ ps)
    (hdefault : p.default?.isSome) : ∃ part ∈ parts, '=' ∈ part.toList := by
  induction parts generalizing starred ps with
  | nil =>
    cases h
    cases hp
  | cons part parts ih =>
    by_cases hstar : part = "*"
    · rw [readParts, if_pos hstar] at h
      split at h
      · obtain ⟨part', hmem, hequals⟩ := ih h hp
        exact ⟨part', List.mem_cons_of_mem _ hmem, hequals⟩
      · cases h
    · rw [readParts_cons hstar] at h
      obtain ⟨ps', hps', rfl⟩ := Option.map_eq_some_iff.1 h
      rcases List.mem_cons.1 hp with rfl | hp
      · refine ⟨part, List.mem_cons_self, ?_⟩
        have heq : (readPart starred part).default? = partDefault? part := by
          rw [readPart]
          split <;> rfl
        rw [heq, partDefault?, Option.isSome_map] at hdefault
        by_contra hequals
        rw [List.dropWhile_eq_nil_iff.2] at hdefault
        · cases hdefault
        · intro c hc
          simpa using fun heq : c = '=' => hequals (heq ▸ hc)
      · obtain ⟨part', hmem, hequals⟩ := ih hps' hp
        exact ⟨part', List.mem_cons_of_mem _ hmem, hequals⟩

theorem Grammar.IsName.no_star {w : List Char} (h : IsName w) (cs : List Char) : w ≠ '*' :: cs := by
  obtain ⟨c, cs', rfl, hc, -⟩ := h
  rintro ⟨⟩
  exact absurd hc (by decide)

theorem partHead_append {part : String} {head rest : List Char} (hpart : part.toList = head ++ rest)
    (hhead : '=' ∉ head) (hrest : rest.head?.all (· == '=')) :
    partHead part = head ∧ partDefault? part = rest.tail?.map String.ofList := by
  have hall : ∀ c ∈ head, (c != '=') = true := by
    intro c hc
    simpa using fun heq : c = '=' => hhead (heq ▸ hc)
  rw [partHead, partDefault?, hpart, List.takeWhile_append_of_pos hall,
    List.dropWhile_append_of_pos hall]
  cases rest with
  | nil => simp
  | cons c rest =>
    obtain rfl : c = '=' := by simpa using hrest
    simp

section

variable {name : String} (h : IsName name.toList) (starred : Bool)
include h

theorem readPart_star :
    readPart starred ("*" ++ name) = ⟨name, .variadicPositional, none⟩ := by
  have hpart : ("*" ++ name).toList = ('*' :: name.toList) ++ [] := by simp
  have hequals : '=' ∉ name.toList := h.not_mem (by decide)
  obtain ⟨hhead, hdefault⟩ := partHead_append hpart (by simpa using hequals) rfl
  rw [readPart, hhead, hdefault]
  split
  · next name' heq => exact absurd (List.cons.inj heq).2 (h.no_star name')
  · next name' _ heq =>
    cases heq
    simp
  · next hstar => exact absurd rfl (hstar name.toList)

theorem readPart_twoStars :
    readPart starred ("**" ++ name) = ⟨name, .variadicKeyword, none⟩ := by
  have hpart : ("**" ++ name).toList = ('*' :: '*' :: name.toList) ++ [] := by simp
  have hequals : '=' ∉ name.toList := h.not_mem (by decide)
  obtain ⟨hhead, hdefault⟩ := partHead_append hpart (by simpa using hequals) rfl
  rw [readPart, hhead, hdefault]
  simp

theorem readPart_name {part : String} {rest : List Char} (hpart : part.toList = name.toList ++ rest)
    (hrest : rest.head?.all (· == '=')) : readPart starred part =
      ⟨name, if starred then .keywordOnly else .positional, rest.tail?.map String.ofList⟩ := by
  obtain ⟨hhead, hdefault⟩ := partHead_append hpart (h.not_mem (by decide)) hrest
  rw [readPart, hhead, hdefault]
  split
  · next heq => exact absurd heq (h.no_star _)
  · next heq => exact absurd heq (h.no_star _)
  · rw [String.ofList_toList]

theorem star_append_ne : "*" ++ name ≠ "*" := by
  obtain ⟨c, cs, hname, -⟩ := h
  simp [← String.toList_inj, hname]

end

theorem twoStars_append_ne (name : String) : "**" ++ name ≠ "*" := by
  simp [← String.toList_inj]

theorem readPart_signaturePart {p : PlannedParam} (h : IsName p.name.toList) (starred : Bool) :
    readPart starred p.signaturePart =
      ⟨p.name, if starred then .keywordOnly else .positional, p.effectiveDefault?⟩ := by
  rw [PlannedParam.signaturePart]
  cases hdefault : p.effectiveDefault? with
  | none => exact readPart_name h starred (List.append_nil _).symm rfl
  | some d =>
    have hpart : (p.name ++ "=" ++ d).toList = p.name.toList ++ '=' :: d.toList := by simp
    rw [readPart_name h starred hpart rfl]
    simp

theorem signaturePart_ne_star {p : PlannedParam} (h : IsName p.name.toList) :
    p.signaturePart ≠ "*" := by
  intro heq
  have hrole : (readPart true p.signaturePart).role = .keywordOnly := by
    rw [readPart_signaturePart h]
    rfl
  rw [heq] at hrole
  exact absurd hrole (by decide +kernel)

/-- What a signature shows of a parameter: its name and role, and its default, which is `None` for
an optional type unless the parameter is variadic. -/
def PlannedParam.shown (p : PlannedParam) : ShownParam where
  name := p.name
  role := p.role
  default? := p.default? <|> if p.isOptional && !p.role.isVariadic then some "None" else none

theorem PlannedParam.shown_of_variadic {p : PlannedParam} (hvariadic : p.role.isVariadic)
    (h : p.default? = none) : p.shown = ⟨p.name, p.role, none⟩ := by
  simp [shown, hvariadic, h]

theorem PlannedParam.shown_of_not_variadic {p : PlannedParam} (h : p.role.isVariadic = false) :
    p.shown = ⟨p.name, p.role, p.effectiveDefault?⟩ := by
  simp [shown, effectiveDefault?, h]

namespace OrderState

def starred (s : OrderState) : Bool :=
  s.varargs.isSome || s.keywordOnly.isSome

variable {s : OrderState} {p : PlannedParam}

theorem starred_of_positional (hr : p.role = .positional) (h : s.fault? p = none) :
    s.starred = false := by
  obtain ⟨varargs, keywordOnly, kwargs⟩ := s
  cases kwargs <;> cases varargs <;> cases keywordOnly <;> simp_all [fault?, starred]

theorem starred_after (h : s.fault? p = none) : (s.after p).starred =
    (s.starred || p.role == .variadicPositional || p.role == .keywordOnly) := by
  obtain ⟨varargs, keywordOnly, kwargs⟩ := s
  cases hr : p.role <;> cases kwargs <;> cases varargs <;> cases keywordOnly <;>
    simp_all [fault?, after, starred]

/-- In the order that is checked, the parts of a signature read back as the parameters. -/
theorem readParts_signatureParts {ps : List PlannedParam} (h : s.check ps = [])
    (hnames : ∀ p ∈ ps, IsName p.name.toList)
    (hdefaults : ∀ p ∈ ps, p.role.isVariadic → p.default? = none) :
    readParts s.starred (signatureParts s.starred ps) = some (ps.map PlannedParam.shown) := by
  induction ps generalizing s with
  | nil => rfl
  | cons p ps ih =>
    obtain ⟨hfault, hcheck⟩ := check_cons_eq_nil h
    rw [List.forall_mem_cons] at hnames hdefaults
    have hrest := ih hcheck hnames.2 hdefaults.2
    have hname := hnames.1
    have hstar := signaturePart_ne_star hname
    have hpart := readPart_signaturePart hname
    rw [starred_after hfault] at hrest
    rw [List.map_cons, signatureParts]
    cases hr : p.role with
    | positional =>
      have hfree := starred_of_positional hr hfault
      rw [hr, hfree] at hrest
      rw [hfree, readParts_cons hstar, hpart, PlannedParam.shown_of_not_variadic (by rw [hr]; rfl),
        hr]
      exact congrArg (Option.map _) hrest
    | variadicPositional =>
      have hvariadic : p.role.isVariadic := by rw [hr]; rfl
      have htrue : (s.starred || Role.variadicPositional == .variadicPositional) = true := by simp
      rw [hr, htrue, Bool.true_or] at hrest
      rw [readParts_cons (star_append_ne hname), readPart_star hname, htrue, hrest,
        PlannedParam.shown_of_variadic hvariadic (hdefaults.1 hvariadic), hr]
      rfl
    | variadicKeyword =>
      have hvariadic : p.role.isVariadic := by rw [hr]; rfl
      have hsame : (s.starred || Role.variadicKeyword == .variadicPositional) = s.starred := by simp
      rw [hr, hsame, show (s.starred || Role.variadicKeyword == .keywordOnly) = s.starred by simp]
        at hrest
      rw [readParts_cons (twoStars_append_ne _), readPart_twoStars hname, hsame, hrest,
        PlannedParam.shown_of_variadic hvariadic (hdefaults.1 hvariadic), hr]
      rfl
    | keywordOnly =>
      have hshown := PlannedParam.shown_of_not_variadic (p := p) (by rw [hr]; rfl)
      have hbehind : readParts true (p.signaturePart :: signatureParts true ps) =
          some (p.shown :: ps.map PlannedParam.shown) := by
        rw [hr, beq_self_eq_true, Bool.or_true] at hrest
        rw [readParts_cons hstar, hpart, hshown, hr, Bool.true_or, hrest]
        rfl
      dsimp only
      split
      · next hstarred => rw [hstarred, hbehind]
      · next hstarred =>
        have hopens : (readPart true p.signaturePart).role = .keywordOnly := by
          rw [hpart]
          rfl
        rw [readParts, if_pos rfl, if_pos, hbehind]
        simp [hstarred, hopens]

end OrderState

/-- No positional parameter without a default follows one with a default. -/
def DefaultsLast (ps : List ShownParam) : Prop :=
  ps.Pairwise fun p q =>
    p.role = .positional → q.role = .positional → p.default?.isSome → q.default?.isSome

theorem PlannedParam.default_shown {p : PlannedParam} (hr : p.role = .positional) :
    p.shown.default?.isSome = (p.default?.isSome || p.isOptional) := by
  rw [shown, hr]
  cases p.default? <;> cases p.isOptional <;> rfl

theorem defaultsLast_of_required {seen : Bool} {ps : List PlannedParam}
    (h : requiredAfterDefault? seen ps = none) :
    (seen → ∀ p ∈ ps, p.role = .positional → p.shown.default?.isSome) ∧
      DefaultsLast (ps.map PlannedParam.shown) := by
  induction ps generalizing seen with
  | nil => exact ⟨fun _ _ hp => absurd hp List.not_mem_nil, .nil⟩
  | cons p ps ih =>
    rw [requiredAfterDefault?] at h
    rw [List.map_cons, DefaultsLast, List.pairwise_cons, List.forall_mem_map]
    split at h
    · next hr =>
      have hr : p.role ≠ .positional := by simpa using hr
      obtain ⟨hseen, hlast⟩ := ih h
      exact ⟨fun hs => List.forall_mem_cons.2 ⟨fun hp => absurd hp hr, hseen hs⟩,
        fun q _ hp => absurd hp hr, hlast⟩
    · next hr =>
      have hr : p.role = .positional := by simpa using hr
      have hdefault := PlannedParam.default_shown hr
      split at h
      · next hsome =>
        obtain ⟨hseen, hlast⟩ := ih h
        have hrest := hseen rfl
        refine ⟨fun _ => List.forall_mem_cons.2 ⟨fun _ => ?_, hrest⟩,
          fun q hq _ hrole _ => hrest q hq hrole, hlast⟩
        rw [hdefault, hsome]
      · next hnone =>
        split at h
        · cases h
        · next hunseen =>
          obtain ⟨-, hlast⟩ := ih h
          refine ⟨fun hs => absurd hs hunseen, fun q _ _ _ hp => absurd ?_ hnone, hlast⟩
          rwa [hdefault] at hp

def Attribute.isBareRequest (a : Attribute) : Bool :=
  match a.name, a.form with
  | "text_signature", .word => true
  | _, _ => false

theorem Attribute.mem_contributions_of_isBareRequest {a : Attribute} (h : a.isBareRequest) :
    .signature (some ⟨none, a.span⟩) a.span ∈ a.contributions := by
  rw [isBareRequest] at h
  split at h
  · next hname hform =>
    rw [contributions_of_text_signature hname, signatureContribution, hform]
    exact List.mem_singleton_self _
  · cases h

theorem Summary.signature_of_isBareRequest {attrs : List Attribute}
    (h : (ofAttributes attrs).findings = []) {a : Attribute} (ha : a ∈ attrs)
    (hbare : a.isBareRequest) : (ofAttributes attrs).signature = some ⟨none, a.span⟩ := by
  have hsettled := ((ofAttributes_findings_eq_nil_iff attrs).1 h).1.signature
  have hmem : ⟨none, a.span⟩ ∈ (contributions attrs).filterMap Contribution.signature? :=
    List.mem_filterMap.2 ⟨_, List.mem_flatMap.2
      ⟨a, ha, Attribute.mem_contributions_of_isBareRequest hbare⟩, rfl⟩
  rw [ofAttributes_signature]
  cases hrequests : (contributions attrs).filterMap Contribution.signature? with
  | nil => simp [hrequests] at hmem
  | cons r rs =>
    have hnil : rs = [] := by simpa [hrequests] using hsettled
    rw [hrequests, hnil, List.mem_singleton] at hmem
    rw [hmem]
    rfl

inductive Dispatch.StartsWith : Dispatch → Option String → Prop
  | plain : StartsWith .plain (some "$self")
  | classMethod : StartsWith .classMethod (some "$cls")
  | staticMethod : StartsWith .staticMethod none

theorem signature_textsOf_of_request {kind : Dispatch} {s : Summary} {d : Decl}
    {params : List PlannedParam} (h : (textsOf kind.rules s d params).findings = []) {span : Span}
    (hrequest : s.signature = some ⟨none, span⟩) :
    ∃ subject, kind.StartsWith subject ∧ requiredAfterDefault? false params = none ∧
      (textsOf kind.rules s d params).signature = some (renderSignature subject params) := by
  cases hsignature : signatureOf kind.rules ⟨none, span⟩ params with
  | error f => simp [textsOf, hrequest, hsignature] at h
  | ok text =>
    have htext : (textsOf kind.rules s d params).signature = some text := by
      simp [textsOf, hrequest, hsignature]
    rw [htext]
    cases hpolicy : kind.rules.signature with
    | refused code message => simp [signatureOf, hpolicy] at hsignature
    | allowed subject =>
      have hstarts : kind.StartsWith subject := by
        cases kind <;> cases hpolicy <;> constructor
      cases hrequired : requiredAfterDefault? false params with
      | some p => simp [signatureOf, hpolicy, hrequired] at hsignature
      | none =>
        simp only [signatureOf, hpolicy, hrequired, Except.ok.injEq] at hsignature
        exact ⟨subject, hstarts, rfl, congrArg some hsignature.symm⟩

theorem ArgMark.default?_of_isVariadic {m : ArgMark} (h : m.role.isVariadic) :
    m.default? = none := by
  cases hform : m.form <;> simp_all [role, default?, Role.isVariadic]

theorem FnDecl.default?_of_isVariadic {types : List String} {d : FnDecl} {p : PlannedParam}
    (hp : p ∈ d.planned types) (h : p.role.isVariadic) : p.default? = none := by
  obtain ⟨hrole, hdefault⟩ := role_planned hp
  rw [hrole] at h
  rw [hdefault]
  split
  · rfl
  · next hcontext =>
    rw [if_neg hcontext, MarkTable.roleOf] at h
    rw [MarkTable.defaultOf]
    cases hfind : d.marking.1.find? p.name with
    | none => rfl
    | some m =>
      rw [hfind] at h
      exact ArgMark.default?_of_isVariadic h

/-- The text is made of parts that read back as the parameters of the plan, `shown` says how a
parameter is seen. -/
def CallPlan.ReadsAs (plan : CallPlan) (shown : PlannedParam → ShownParam) (text : String) : Prop :=
  ∃ subject parts, plan.dispatch.StartsWith subject ∧
    text = "(" ++ ", ".intercalate (subject.toList ++ parts) ++ ")" ∧
    readParts false parts = some (plan.params.map shown) ∧ DefaultsLast (plan.params.map shown)

/-- A generated signature reads back as the parameters that the runtime passes. -/
theorem SourceFile.signature_readsAs {text : String} {file : Option String} {f : SourceFile}
    (hparse : SourceFile.parse text file = .ok f) {d : FnDecl} (hd : .fn d ∈ f.declarations)
    {types : List String} {plan : CallPlan} (h : d.verdict types = .accepted plan)
    (hbare : d.attrs.any Attribute.isBareRequest) :
    ∃ signature, plan.signature = some signature ∧
      plan.ReadsAs PlannedParam.shown signature := by
  obtain ⟨haccepted, rfl⟩ := FnDecl.verdict_eq_accepted_iff.1 h
  obtain ⟨a, ha, hrequest⟩ := List.any_eq_true.1 hbare
  have hsummary := Summary.signature_of_isBareRequest haccepted.summary ha hrequest
  obtain ⟨subject, hstarts, hrequired, hsignature⟩ :=
    signature_textsOf_of_request haccepted.texts hsummary
  have hplanned : ∀ p ∈ d.passed types, p ∈ d.planned types := fun p hp => List.mem_of_mem_filter hp
  have hnames : ∀ p ∈ d.passed types, IsName p.name.toList := by
    intro p hp
    obtain ⟨named, hnamed, rfl⟩ := List.mem_map.1 (hplanned p hp)
    obtain ⟨hp, mutable, hpattern⟩ := mem_namedParams (d.namedParams_rest_subset hnamed)
    exact isName_unraw ((FnDecl.isIdent_of_parse hparse hd).2 hp hpattern)
  refine ⟨_, hsignature, subject, signatureParts false (d.passed types), hstarts, rfl, ?_, ?_⟩
  · exact OrderState.readParts_signatureParts haccepted.order hnames fun p hp =>
      FnDecl.default?_of_isVariadic (hplanned p hp)
  · exact (defaultsLast_of_required hrequired).2

def signatureAndParams (found : FnDecl × CallPlan) : Bool × Option String × List ShownParam :=
  (found.1.attrs.any Attribute.isBareRequest, found.2.signature,
    found.2.params.map PlannedParam.shown)

theorem SourceFile.signature_readsAs_of_lone_star : ∃ f d plan,
    SourceFile.parse ("#[text_signature] #[args(b = \"x=1\", \"*\", r#c, k = \"**\")] " ++
      "fn f(&self, py: Python, a: T, r#b: T, c: Option<T>, k: Option<T>);") = .ok f ∧
    .fn d ∈ f.declarations ∧ d.verdict defaultContextTypes = .accepted plan ∧
    d.attrs.any Attribute.isBareRequest ∧
    plan.signature = some "($self, a, b=x=1, *, c=None, **k)" ∧
    (∃ signature, plan.signature = some signature ∧
      plan.ReadsAs PlannedParam.shown signature) ∧
    plan.params.map PlannedParam.shown = [⟨"a", .positional, none⟩, ⟨"b", .positional, some "x=1"⟩,
      ⟨"c", .keywordOnly, some "None"⟩, ⟨"k", .variadicKeyword, none⟩] := by
  have hshown : (acceptedFn? ("#[text_signature] #[args(b = \"x=1\", \"*\", r#c, k = \"**\")] " ++
      "fn f(&self, py: Python, a: T, r#b: T, c: Option<T>, k: Option<T>);")).map
        signatureAndParams = some (true, some "($self, a, b=x=1, *, c=None, **k)",
          [⟨"a", .positional, none⟩, ⟨"b", .positional, some "x=1"⟩,
            ⟨"c", .keywordOnly, some "None"⟩, ⟨"k", .variadicKeyword, none⟩]) := by
    decide +kernel
  obtain ⟨⟨d, plan⟩, hfound, hplan⟩ := Option.map_eq_some_iff.1 hshown
  obtain ⟨f, hf, hd, h⟩ := exists_of_acceptedFn? hfound
  simp only [signatureAndParams, Prod.mk.injEq] at hplan
  obtain ⟨hbare, hsignature, hparams⟩ := hplan
  exact ⟨f, d, plan, hf, hd, h, hbare, hsignature, SourceFile.signature_readsAs hf hd h hbare,
    hparams⟩

/-- A parameter with the default `None` of an optional type, variadic or not. -/
def PlannedParam.withTypeDefault (p : PlannedParam) : ShownParam :=
  ⟨p.name, p.role, p.effectiveDefault?⟩

theorem mem_toList_intercalate {texts : List String} {s : String} (hs : s ∈ texts) {c : Char}
    (hc : c ∈ s.toList) (sep : String) : c ∈ (sep.intercalate texts).toList := by
  cases texts with
  | nil => cases hs
  | cons first rest =>
    rw [toList_intercalate_cons]
    rcases List.mem_cons.1 hs with rfl | hs
    · exact List.mem_append_left _ hc
    · exact List.mem_append_right _ (List.mem_flatMap.2 ⟨s, hs, List.mem_append_right _ hc⟩)

theorem SourceFile.not_readsAs_of_optional_keywords : ∃ f d plan,
    SourceFile.parse "#[text_signature] #[args(k = \"**\")] fn f(&self, k: Option<T>);" = .ok f ∧
    .fn d ∈ f.declarations ∧ d.verdict defaultContextTypes = .accepted plan ∧
    d.attrs.any Attribute.isBareRequest ∧
    ¬ ∃ signature, plan.signature = some signature ∧
      plan.ReadsAs PlannedParam.withTypeDefault signature := by
  have hshown : (acceptedFn?
      "#[text_signature] #[args(k = \"**\")] fn f(&self, k: Option<T>);").map
        (fun found => (signatureAndParams found, found.2.params.map PlannedParam.withTypeDefault)) =
      some ((true, some "($self, **k)", [⟨"k", .variadicKeyword, none⟩]),
        [⟨"k", .variadicKeyword, some "None"⟩]) := by decide +kernel
  obtain ⟨⟨d, plan⟩, hfound, hplan⟩ := Option.map_eq_some_iff.1 hshown
  obtain ⟨f, hf, hd, h⟩ := exists_of_acceptedFn? hfound
  simp only [signatureAndParams, Prod.mk.injEq] at hplan
  obtain ⟨⟨hbare, hsignature, -⟩, hparams⟩ := hplan
  refine ⟨f, d, plan, hf, hd, h, hbare, ?_⟩
  rintro ⟨signature, hsome, subject, parts, -, htext, hread, -⟩
  rw [hsignature, Option.some.injEq] at hsome
  rw [hparams] at hread
  obtain ⟨part, hpart, hequals⟩ := exists_equals_of_readParts hread List.mem_cons_self rfl
  have hmem : '=' ∈ "($self, **k)".toList := by
    rw [hsome, htext]
    have hinside := mem_toList_intercalate (List.mem_append_right subject.toList hpart) hequals ", "
    rw [String.toList_append, String.toList_append]
    exact List.mem_append_left _ (List.mem_append_right _ hinside)
  exact absurd hmem (by decide)

end NativeBinding
