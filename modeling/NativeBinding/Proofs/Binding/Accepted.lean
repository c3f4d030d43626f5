import NativeBinding.Binding.Assemble
import NativeBinding.Decl.Parse

/-!
Accepted declarations, stage by stage. The intermediate results of a verdict get names here, and
`Accepted` says that no stage found anything and what the plan then holds.
-/

namespace NativeBinding

theorem Verdict.of_eq_accepted_iff {plan p : CallPlan} {fs : List Finding} :
    Verdict.of plan fs = .accepted p ↔ fs = [] ∧ p = plan := by
  cases fs with
  | nil =>
    rw [Verdict.of, Verdict.accepted.injEq, eq_comm]
    simp
  | cons f fs => simp [Verdict.of]

namespace FnDecl

def summary (d : FnDecl) : Summary :=
  Summary.ofAttributes d.attrs

def resolution (d : FnDecl) : Resolution :=
  d.summary.dispatch.resolve d.params (some d.span) d.selfType?

def rest (d : FnDecl) : List Param :=
  if d.resolution.skipFirst then d.params.tail else d.params

def marking (d : FnDecl) : MarkTable × List Finding :=
  MarkTable.build d.summary.marks ((namedParams d.rest).map (·.1))
    (receiverName? d.resolution.receiver d.params)

def planned (types : List String) (d : FnDecl) : List PlannedParam :=
  (namedParams d.rest).map (planParam types d.marking.1)

def passed (types : List String) (d : FnDecl) : List PlannedParam :=
  (d.planned types).filter (!·.isContext)

def texts (types : List String) (d : FnDecl) : Texts :=
  textsOf d.summary.dispatch.rules d.summary (.fn d) (d.passed types)

def plan (types : List String) (d : FnDecl) : CallPlan where
  dispatch := d.summary.dispatch
  receiver := d.resolution.receiver
  nativeName := d.name
  externalName := (d.texts types).name
  nativeParams := d.planned types
  result := d.result.getD .unit
  doc := (d.texts types).doc
  signature := (d.texts types).signature
  deprecations := d.summary.deprecations
  span := d.span

def surplusFindings (d : FnDecl) : List Finding :=
  if d.summary.dispatch.rules.takesParams then []
  else (d.rest.head?.map fun p => ⟨.classAttributeArguments, p.span⟩).toList

theorem verdict_eq (types : List String) (d : FnDecl) :
    d.verdict types = .of (d.plan types)
      (d.summary.findings ++ d.asyncFindings ++ genericFindings d.generics ++
        blockFindings d.block ++ implArgumentFindings d.params ++
        resultFindings (d.result.getD .unit) ++ d.resolution.findings ++ d.surplusFindings ++
        patternFindings d.rest ++ d.marking.2 ++ contextFindings d.marking.1 (d.planned types) ++
        checkOrder (d.passed types) ++ (d.texts types).findings) :=
  rfl

/-- No stage found anything. -/
structure Accepted (types : List String) (d : FnDecl) : Prop where
  summary : d.summary.findings = []
  async : d.asyncFindings = []
  generics : genericFindings d.generics = []
  block : blockFindings d.block = []
  implArguments : implArgumentFindings d.params = []
  result : resultFindings (d.result.getD .unit) = []
  resolution : d.resolution.findings = []
  surplus : d.surplusFindings = []
  patterns : patternFindings d.rest = []
  marking : d.marking.2 = []
  context : contextFindings d.marking.1 (d.planned types) = []
  order : checkOrder (d.passed types) = []
  texts : (d.texts types).findings = []

theorem verdict_eq_accepted_iff {types : List String} {d : FnDecl} {p : CallPlan} :
    d.verdict types = .accepted p ↔ d.Accepted types ∧ p = d.plan types := by
  rw [verdict_eq, Verdict.of_eq_accepted_iff]
  refine and_congr_left fun _ => ?_
  simp only [List.append_eq_nil_iff]
  constructor
  · rintro ⟨⟨⟨⟨⟨⟨⟨⟨⟨⟨⟨⟨h₁, h₂⟩, h₃⟩, h₄⟩, h₅⟩, h₆⟩, h₇⟩, h₈⟩, h₉⟩, h₁₀⟩, h₁₁⟩, h₁₂⟩, h₁₃⟩
    exact ⟨h₁, h₂, h₃, h₄, h₅, h₆, h₇, h₈, h₉, h₁₀, h₁₁, h₁₂, h₁₃⟩
  · rintro ⟨h₁, h₂, h₃, h₄, h₅, h₆, h₇, h₈, h₉, h₁₀, h₁₁, h₁₂, h₁₃⟩
    exact ⟨⟨⟨⟨⟨⟨⟨⟨⟨⟨⟨⟨h₁, h₂⟩, h₃⟩, h₄⟩, h₅⟩, h₆⟩, h₇⟩, h₈⟩, h₉⟩, h₁₀⟩, h₁₁⟩, h₁₂⟩, h₁₃⟩

end FnDecl

namespace ConstDecl

def summary (d : ConstDecl) : Summary :=
  Summary.ofAttributes d.attrs

def texts (d : ConstDecl) : Texts :=
  textsOf Dispatch.classAttribute.rules d.summary (.const d) []

def plan (d : ConstDecl) : CallPlan where
  dispatch := .classAttribute
  receiver := .none
  nativeName := d.name
  externalName := d.texts.name
  nativeParams := []
  result := d.type
  doc := d.texts.doc
  signature := none
  deprecations := d.summary.deprecations
  span := d.span

structure Accepted (d : ConstDecl) : Prop where
  summary : d.summary.findings = []
  dispatch : d.dispatchFindings d.summary = []
  block : blockFindings d.block = []
  result : resultFindings d.type = []
  marking : (MarkTable.build d.summary.marks [] none).2 = []
  texts : d.texts.findings = []

theorem verdict_eq_accepted_iff {d : ConstDecl} {p : CallPlan} :
    d.verdict = .accepted p ↔ d.Accepted ∧ p = d.plan := by
  have heq : d.verdict = .of d.plan (d.summary.findings ++ d.dispatchFindings d.summary ++
      blockFindings d.block ++ resultFindings d.type ++
      (MarkTable.build d.summary.marks [] none).2 ++ d.texts.findings) := rfl
  rw [heq, Verdict.of_eq_accepted_iff]
  refine and_congr_left fun _ => ?_
  simp only [List.append_eq_nil_iff]
  constructor
  · rintro ⟨⟨⟨⟨⟨h₁, h₂⟩, h₃⟩, h₄⟩, h₅⟩, h₆⟩
    exact ⟨h₁, h₂, h₃, h₄, h₅, h₆⟩
  · rintro ⟨h₁, h₂, h₃, h₄, h₅, h₆⟩
    exact ⟨⟨⟨⟨⟨h₁, h₂⟩, h₃⟩, h₄⟩, h₅⟩, h₆⟩

end ConstDecl

namespace Decl

variable (types : List String)

theorem verdict_fn (d : FnDecl) : (fn d).verdict types = d.verdict types :=
  rfl

theorem verdict_const (d : ConstDecl) : (const d).verdict types = d.verdict :=
  rfl

end Decl

/-- The only function of a text with its plan, if it is accepted. -/
def acceptedFn? (text : String) : Option (FnDecl × CallPlan) :=
  match SourceFile.parse text with
  | .ok f =>
      match f.declarations with
      | [.fn d] => (d.verdict defaultContextTypes).plan?.map (d, ·)
      | _ => none
  | .error _ => none

theorem exists_of_acceptedFn? {text : String} {d : FnDecl} {plan : CallPlan}
    (h : acceptedFn? text = some (d, plan)) :
    ∃ f, SourceFile.parse text = .ok f ∧ .fn d ∈ f.declarations ∧
      d.verdict defaultContextTypes = .accepted plan := by
  rw [acceptedFn?] at h
  split at h
  · next f hf =>
    split at h
    · next d' hd =>
      obtain ⟨plan', hplan, heq⟩ := Option.map_eq_some_iff.1 h
      cases heq
      refine ⟨f, hf, by simp [hd], ?_⟩
      cases hv : d.verdict defaultContextTypes <;> simp_all [Verdict.plan?]
    · cases h
  · cases h

end NativeBinding
