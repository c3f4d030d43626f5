import NativeBinding.Proofs.Binding.Unsupported

/-!
Constants as functions. A constant gets the verdict of the function without parameters that returns
its type, plan and findings alike, exactly if its attributes make it a class attribute.
-/

namespace NativeBinding

namespace ConstDecl

/-- The function that returns a constant. -/
def asFunction (c : ConstDecl) : FnDecl where
  name := c.name
  params := []
  result := some c.type
  attrs := c.attrs
  generics := []
  asyncSpan := none
  block := c.block
  nameSpan := c.nameSpan
  span := c.span

theorem verdict_eq (c : ConstDecl) : c.verdict = .of c.plan
    (c.summary.findings ++ c.dispatchFindings c.summary ++ blockFindings c.block ++
      resultFindings c.type ++ (MarkTable.build c.summary.marks [] none).2 ++ c.texts.findings) :=
  rfl

variable {c : ConstDecl} {types : List String}

theorem resolution_asFunction (h : c.summary.dispatch = .classAttribute) :
    c.asFunction.resolution = ⟨.none, false, []⟩ := by
  have hdispatch : c.asFunction.summary.dispatch = .classAttribute := h
  rw [FnDecl.resolution, hdispatch]
  rfl

theorem rest_asFunction (h : c.summary.dispatch = .classAttribute) : c.asFunction.rest = [] := by
  rw [FnDecl.rest, resolution_asFunction h]
  rfl

theorem marking_asFunction (h : c.summary.dispatch = .classAttribute) :
    c.asFunction.marking = MarkTable.build c.summary.marks [] none := by
  rw [FnDecl.marking, rest_asFunction h, resolution_asFunction h]
  rfl

theorem planned_asFunction (h : c.summary.dispatch = .classAttribute) :
    c.asFunction.planned types = [] := by
  rw [FnDecl.planned, rest_asFunction h]
  rfl

theorem texts_asFunction (h : c.summary.dispatch = .classAttribute) :
    c.asFunction.texts types = c.texts := by
  have hdispatch : c.asFunction.summary.dispatch = .classAttribute := h
  rw [FnDecl.texts, FnDecl.passed, planned_asFunction h, hdispatch]
  rfl

theorem signature_texts (c : ConstDecl) : c.texts.signature = none := by
  rw [texts, textsOf]
  cases c.summary.signature <;> rfl

theorem plan_asFunction (h : c.summary.dispatch = .classAttribute) :
    c.asFunction.plan types = c.plan := by
  have hdispatch : c.asFunction.summary.dispatch = .classAttribute := h
  rw [FnDecl.plan, hdispatch, resolution_asFunction h, texts_asFunction h, planned_asFunction h,
    signature_texts, plan]
  rfl

theorem dispatchFindings_eq_nil_iff :
    c.dispatchFindings c.summary = [] ↔ c.summary.dispatch = .classAttribute := by
  rw [dispatchFindings, Summary.dispatch]
  split <;> simp_all

theorem verdict_asFunction (h : c.summary.dispatch = .classAttribute) :
    c.asFunction.verdict types = c.verdict := by
  have hsurplus : c.asFunction.surplusFindings = [] := by
    rw [FnDecl.surplusFindings, rest_asFunction h]
    split <;> rfl
  have hpatterns : patternFindings c.asFunction.rest = [] := by
    rw [rest_asFunction h]
    rfl
  rw [FnDecl.verdict_eq, verdict_eq, plan_asFunction h, hsurplus, hpatterns,
    resolution_asFunction h, marking_asFunction h, FnDecl.passed, planned_asFunction h,
    texts_asFunction h, dispatchFindings_eq_nil_iff.2 h]
  change Verdict.of c.plan (c.summary.findings ++ [] ++ [] ++ blockFindings c.block ++ [] ++
    resultFindings c.type ++ [] ++ [] ++ [] ++ (MarkTable.build c.summary.marks [] none).2 ++ [] ++
    [] ++ c.texts.findings) = _
  simp only [List.append_nil]

theorem dispatchFindings_eq_nil_of_verdict_eq {d : FnDecl} (h : c.verdict = d.verdict types) :
    c.dispatchFindings c.summary = [] := by
  have hcode : "const-binding-kind" ∈ shapeCodes := by simp [shapeCodes]
  have hfn : (d.verdict types).spansOf "const-binding-kind" = [] := by
    rw [d.spansOf_verdict types hcode, d.haveCode_asyncFindings.spansWith_eq,
      (haveCode_genericFindings _).spansWith_eq, (haveCode_blockFindings _).spansWith_eq,
      (haveCode_implArgumentFindings _).spansWith_eq, (haveCode_resultFindings _).spansWith_eq]
    simp
  have hconst : HaveCode "const-binding-kind" (c.dispatchFindings c.summary) := by
    rw [dispatchFindings]
    split <;> simp [HaveCode, Fault.code]
  rw [← h, verdict_eq, Verdict.spansOf_of] at hfn
  simp only [spansWith_append, List.append_eq_nil_iff, hconst.spansWith_eq, if_true,
    List.map_eq_nil_iff] at hfn
  exact hfn.1.1.1.1.2

end ConstDecl

theorem Decl.verdict_const_eq_iff (types : List String) (c : ConstDecl) :
    (Decl.const c).verdict types = (Decl.fn c.asFunction).verdict types ↔
      (Summary.ofAttributes c.attrs).dispatch = .classAttribute := by
  rw [verdict_const, verdict_fn]
  constructor
  · intro h
    have hfindings := ConstDecl.dispatchFindings_eq_nil_of_verdict_eq h
    exact ConstDecl.dispatchFindings_eq_nil_iff.1 hfindings
  · intro h
    exact (ConstDecl.verdict_asFunction h).symm

end NativeBinding
