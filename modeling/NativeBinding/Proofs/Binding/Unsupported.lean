import NativeBinding.Proofs.Binding.Codes
import NativeBinding.Proofs.Binding.Places
import NativeBinding.Proofs.Decl.Preorder

/-!
Shapes of functions that cannot be exported. Whatever else is wrong with a function, it is reported
that it is `async`, that it or its block is generic in more than lifetimes, and that the type of a
parameter or the result has an `impl` inside. Each of these codes is reported by one check, so no
report is missing, doubled or hidden by another.
-/

namespace NativeBinding

namespace TypeExpr

def isImpl : TypeExpr → Bool
  | object .impl _ _ _ => true
  | _ => false

/-- The places of the first `impl` node of a type: one, or none if it has no such node. -/
inductive FirstImpl (t : TypeExpr) : List Span → Prop
  | absent (h : ∀ address u, node? address t = some u → ¬ u.isImpl) : FirstImpl t []
  | found {u : TypeExpr} (h : t.IsFirst isImpl u) : FirstImpl t [u.span]

theorem findImpl?_eq_find? (t : TypeExpr) : t.findImpl? = t.parts.find? isImpl := by
  rw [findImpl?]
  congr 1

theorem firstImpl (t : TypeExpr) : t.FirstImpl (t.findImpl?.map span).toList := by
  rw [findImpl?_eq_find?]
  cases h : t.parts.find? isImpl with
  | none => exact .absent fun _ _ => not_of_find?_eq_none h
  | some u => exact .found (isFirst_of_find? h)

theorem FirstImpl.of_nil {t : TypeExpr} (h : t.FirstImpl []) {address : List Nat} {u : TypeExpr}
    (hu : node? address t = some u) : ¬ u.isImpl := by
  cases h with
  | absent h => exact h address u hu

end TypeExpr

/-- The places of the first `impl` nodes of the types of parameters, in order. A `self` has no
type. -/
inductive FirstImpls : List Param → List Span → Prop
  | nil : FirstImpls [] []
  | self {p : SelfParam} {params : List Param} {spans : List Span} (h : FirstImpls params spans) :
      FirstImpls (.self p :: params) spans
  | typed {p : TypedParam} {params : List Param} {first spans : List Span}
      (hfirst : p.type.FirstImpl first) (h : FirstImpls params spans) :
      FirstImpls (.typed p :: params) (first ++ spans)

theorem firstImpls (params : List Param) :
    FirstImpls params ((implArgumentFindings params).map Finding.span) := by
  induction params with
  | nil => exact .nil
  | cons p params ih =>
    cases p with
    | self p => exact .self ih
    | typed p =>
      have hcons : (implArgumentFindings (.typed p :: params)).map Finding.span =
          (p.type.findImpl?.map TypeExpr.span).toList ++
            (implArgumentFindings params).map Finding.span := by
        rw [implArgumentFindings, List.filterMap_cons]
        cases h : p.type.findImpl? <;> simp [implArgumentFindings, h]
      rw [hcons]
      exact .typed p.type.firstImpl ih

theorem FirstImpls.of_nil {params : List Param} (h : FirstImpls params []) {p : TypedParam}
    (hp : .typed p ∈ params) : p.type.FirstImpl [] := by
  generalize hspans : ([] : List Span) = spans at h
  induction h with
  | nil => cases hp
  | self _ ih => exact ih (by simpa using hp) hspans
  | typed hfirst _ ih =>
    obtain ⟨rfl, rfl⟩ := List.append_eq_nil_iff.1 hspans.symm
    rcases List.mem_cons.1 hp with hp | hp
    · cases hp
      exact hfirst
    · exact ih hp rfl

def spansWith (code : String) (fs : List Finding) : List Span :=
  (fs.filter (·.fault.code == code)).map Finding.span

theorem spansWith_append (code : String) (fs gs : List Finding) :
    spansWith code (fs ++ gs) = spansWith code fs ++ spansWith code gs := by
  rw [spansWith, List.filter_append, List.map_append]
  rfl

def HaveCode (code : String) (fs : List Finding) : Prop :=
  ∀ f ∈ fs, f.fault.code = code

theorem HaveCode.spansWith_eq {code : String} {fs : List Finding} (h : HaveCode code fs)
    (other : String) : spansWith other fs = if code = other then fs.map Finding.span else [] := by
  rw [spansWith]
  split
  · next heq =>
    subst heq
    rw [List.filter_eq_self.2 fun f hf => beq_iff_eq.2 (h f hf)]
  · next hne =>
    rw [List.filter_eq_nil_iff.2 fun f hf => by simp [h f hf, hne], List.map_nil]

theorem Shapeless.spansWith_eq_nil {fs : List Finding} (h : Shapeless fs) {code : String}
    (hcode : code ∈ shapeCodes) : spansWith code fs = [] := by
  rw [spansWith, List.filter_eq_nil_iff.2, List.map_nil]
  intro f hf heq
  exact h f hf (by rwa [beq_iff_eq.1 heq])

theorem haveCode_genericFindings (generics : List GenericParam) :
    HaveCode "generic-parameter" (genericFindings generics) := by
  intro f hf
  obtain ⟨g, -, rfl⟩ := List.mem_map.1 hf
  rfl

theorem haveCode_blockFindings (block : Option ImplHeader) :
    HaveCode "generic-impl" (blockFindings block) := by
  intro f hf
  cases block with
  | none => cases hf
  | some h =>
    obtain ⟨g, -, rfl⟩ := List.mem_map.1 hf
    rfl

theorem haveCode_implArgumentFindings (params : List Param) :
    HaveCode "impl-trait-argument" (implArgumentFindings params) := by
  intro f hf
  obtain ⟨p, -, hp⟩ := List.mem_filterMap.1 hf
  cases p with
  | self p => cases hp
  | typed p =>
    obtain ⟨found, -, rfl⟩ := Option.map_eq_some_iff.1 hp
    rfl

theorem haveCode_resultFindings (t : TypeExpr) :
    HaveCode "impl-trait-return" (resultFindings t) := by
  intro f hf
  obtain ⟨found, -, rfl⟩ := by simpa [resultFindings] using hf
  rfl

theorem FnDecl.haveCode_asyncFindings (d : FnDecl) : HaveCode "async-fn" d.asyncFindings := by
  intro f hf
  obtain ⟨span, -, rfl⟩ := by simpa [asyncFindings] using hf
  rfl

def Verdict.spansOf (v : Verdict) (code : String) : List Span :=
  (v.diagnostics.filter (·.code == some code)).map (·.span)

theorem Verdict.spansOf_of (plan : CallPlan) (fs : List Finding) (code : String) :
    (Verdict.of plan fs).spansOf code = spansWith code fs := by
  rw [spansOf, diagnostics, findings_of, List.filter_map, List.map_map, spansWith]
  rfl

def typeGenerics (generics : List GenericParam) : List GenericParam :=
  generics.filter (·.kind != .lifetime)

theorem typeGenerics_eq_nil_iff {generics : List GenericParam} :
    typeGenerics generics = [] ↔ ∀ g ∈ generics, g.kind = .lifetime := by
  simp [typeGenerics, List.filter_eq_nil_iff]

namespace FnDecl

def blockGenerics (d : FnDecl) : List GenericParam :=
  d.block.elim [] ImplHeader.generics

/-- A verdict reports each unsupported shape of a function, at its place and once. -/
structure ReportsShape (d : FnDecl) (v : Verdict) : Prop where
  async : v.spansOf "async-fn" = d.asyncSpan.toList
  generics : v.spansOf "generic-parameter" = (typeGenerics d.generics).map (·.span)
  block : v.spansOf "generic-impl" = (typeGenerics d.blockGenerics).map (·.span)
  arguments : FirstImpls d.params (v.spansOf "impl-trait-argument")
  noResult : d.result = none → v.spansOf "impl-trait-return" = []
  result : ∀ t, d.result = some t → t.FirstImpl (v.spansOf "impl-trait-return")

structure Supported (d : FnDecl) : Prop where
  async : d.asyncSpan = none
  generics : ∀ g ∈ d.generics, g.kind = .lifetime
  block : ∀ g ∈ d.blockGenerics, g.kind = .lifetime
  arguments : ∀ p, .typed p ∈ d.params → ∀ address u,
    p.type.node? address = some u → ¬ u.isImpl
  result : ∀ t, d.result = some t → ∀ address u, t.node? address = some u → ¬ u.isImpl

theorem ReportsShape.supported {d : FnDecl} {v : Verdict} (h : d.ReportsShape v)
    (hnone : ∀ code ∈ shapeCodes, v.spansOf code = []) : d.Supported := by
  constructor
  case async => simpa [h.async] using hnone "async-fn" (by simp [shapeCodes])
  case generics =>
    have := hnone "generic-parameter" (by simp [shapeCodes])
    rwa [h.generics, List.map_eq_nil_iff, typeGenerics_eq_nil_iff] at this
  case block =>
    have := hnone "generic-impl" (by simp [shapeCodes])
    rwa [h.block, List.map_eq_nil_iff, typeGenerics_eq_nil_iff] at this
  case arguments =>
    intro p hp address u
    have hfirst := h.arguments
    rw [hnone _ (by simp [shapeCodes])] at hfirst
    exact (hfirst.of_nil hp).of_nil
  case result =>
    intro t ht address u
    have hfirst := h.result t ht
    rw [hnone _ (by simp [shapeCodes])] at hfirst
    exact hfirst.of_nil

variable (types : List String) (d : FnDecl)

theorem spansOf_verdict {code : String} (hcode : code ∈ shapeCodes) :
    (d.verdict types).spansOf code = spansWith code d.asyncFindings ++
      spansWith code (genericFindings d.generics) ++ spansWith code (blockFindings d.block) ++
      spansWith code (implArgumentFindings d.params) ++
      spansWith code (resultFindings (d.result.getD .unit)) := by
  have hsummary : spansWith code d.summary.findings = [] :=
    (Summary.shapeless_findings d.attrs).spansWith_eq_nil hcode
  have hresolution : spansWith code d.resolution.findings = [] :=
    (Dispatch.shapeless_resolve _ _ _ _).spansWith_eq_nil hcode
  have hsurplus := d.shapeless_surplusFindings.spansWith_eq_nil hcode
  have hpatterns := (shapeless_patternFindings d.rest).spansWith_eq_nil hcode
  have hmarking : spansWith code d.marking.2 = [] :=
    (MarkTable.shapeless_build _ _ _).spansWith_eq_nil hcode
  have hcontext := (shapeless_contextFindings d.marking.1 (d.planned types)).spansWith_eq_nil hcode
  have horder : spansWith code (checkOrder (d.passed types)) = [] :=
    (OrderState.shapeless_check _ _).spansWith_eq_nil hcode
  have htexts : spansWith code (d.texts types).findings = [] :=
    (Dispatch.shapeless_textsOf _ _ _ _).spansWith_eq_nil hcode
  rw [verdict_eq, Verdict.spansOf_of]
  simp only [spansWith_append, hsummary, hresolution, hsurplus, hpatterns, hmarking, hcontext,
    horder, htexts, List.nil_append, List.append_nil]

theorem reportsShape : d.ReportsShape (d.verdict types) ∧
    ∀ plan, d.verdict types = .accepted plan → d.Supported := by
  have hspans {code : String} (hcode : code ∈ shapeCodes) := spansOf_verdict types d hcode
  simp only [d.haveCode_asyncFindings.spansWith_eq,
    (haveCode_genericFindings d.generics).spansWith_eq,
    (haveCode_blockFindings d.block).spansWith_eq,
    (haveCode_implArgumentFindings d.params).spansWith_eq,
    (haveCode_resultFindings (d.result.getD .unit)).spansWith_eq] at hspans
  have hreports : d.ReportsShape (d.verdict types) := by
    constructor
    case async =>
      rw [hspans (by simp [shapeCodes])]
      cases h : d.asyncSpan <;> simp [asyncFindings, h]
    case generics =>
      rw [hspans (by simp [shapeCodes])]
      simp [genericFindings, typeGenerics, Function.comp_def]
    case block =>
      rw [hspans (by simp [shapeCodes])]
      cases h : d.block <;> simp [blockFindings, blockGenerics, typeGenerics, h, Function.comp_def]
    case arguments =>
      rw [hspans (by simp [shapeCodes])]
      simpa using firstImpls d.params
    case noResult =>
      intro hnone
      rw [hspans (by simp [shapeCodes])]
      simp [hnone, resultFindings, TypeExpr.unit, TypeExpr.findImpl?, TypeExpr.parts,
        TypeExpr.partsAll]
    case result =>
      intro t ht
      rw [hspans (by simp [shapeCodes])]
      have hfirst := t.firstImpl
      cases h : t.findImpl? <;> simpa [ht, resultFindings, h] using hfirst
  refine ⟨hreports, fun plan haccepted => hreports.supported fun code _ => ?_⟩
  rw [haccepted]
  rfl

end FnDecl

end NativeBinding
