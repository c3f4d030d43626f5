import NativeBinding.Proofs.Binding.Accepted
import NativeBinding.Proofs.Binding.Classification
import NativeBinding.Proofs.Decl.Spans

/-!
Where findings point. Every finding on a declaration points at the declaration or at a part of it,
except for those on the generic parameters of the block around it: they are the same for all members
of the block.
-/

namespace NativeBinding

def Contribution.spans : Contribution → List Span
  | kind _ span => [span]
  | name _ span => [span]
  | mark m => [m.span]
  | signature request span => span :: (request.map SignatureRequest.span).toList
  | docLine _ => []
  | deprecation _ => []
  | passthrough _ => []
  | finding f => [f.span]

def ItemOutcome.spans : ItemOutcome → List Span
  | mark m => [m.span]
  | separator => []
  | fault f => [f.span]

theorem ArgsState.read_spans (s : ArgsState) (item : AttrArg) :
    (s.read item).spans ⊆ item.spans := by
  unfold read
  split
  · unfold readSeparator beforeKwargs
    repeat' split
    all_goals simp [ItemOutcome.spans, ItemOutcome.fail, AttrArg.spans]
  · unfold beforeKwargs
    repeat' split
    all_goals simp [ItemOutcome.spans, ItemOutcome.fail, AttrArg.spans]
  · unfold readAssign readVarargs readKwargs readDefault beforeKwargs
    repeat' split
    all_goals simp [ItemOutcome.spans, ItemOutcome.fail, AttrArg.spans]

namespace Attribute

variable {a : Attribute}

theorem spans_of_arg {args : List AttrArg} (hform : a.form = .list args) {arg : AttrArg}
    (harg : arg ∈ args) : arg.spans ⊆ a.spans := by
  intro s hs
  have hargs : s ∈ args.flatMap AttrArg.spans := List.mem_flatMap.2 ⟨arg, harg, hs⟩
  simp [spans, AttrForm.spans, hform, hargs]

theorem spans_of_value {l : Literal} (hform : a.form = .value l) : l.span ∈ a.spans := by
  simp [spans, AttrForm.spans, hform]

theorem propertyName_spans {args : List AttrArg} (hform : a.form = .list args) :
    (a.propertyName args).spans ⊆ a.spans := by
  have harg {arg : AttrArg} (h : arg ∈ args) := spans_of_arg hform h
  rw [propertyName.eq_def]
  split
  · have h := harg (List.mem_singleton_self _)
    split <;> simpa [Contribution.spans, Contribution.fail, AttrArg.spans] using h
  · have h := harg (List.mem_singleton_self _)
    split
    · simpa [Contribution.spans, Contribution.fail, AttrArg.spans] using h
    · split <;> simpa [Contribution.spans, Contribution.fail, AttrArg.spans] using h
  · have h := harg (List.mem_singleton_self _)
    simp only [AttrArg.spans, List.cons_subset] at h
    simpa [Contribution.spans, Contribution.fail] using h.2.2.1
  · simp [Contribution.spans, Contribution.fail, spans]

theorem AttrArg.span_mem_spans (arg : AttrArg) : arg.span ∈ arg.spans := by
  cases arg <;> simp [AttrArg.span, AttrArg.spans]

theorem kindTag_spans (a : Attribute) (kind : Dispatch) (replacement : Option String) :
    (a.kindTag kind replacement).flatMap Contribution.spans ⊆ a.spans := by
  have hself : a.span ∈ a.spans := by simp [spans]
  have hpath : a.path.span ∈ a.spans := by simp [spans]
  rw [kindTag.eq_def]
  simp only [List.flatMap_append, List.append_subset]
  refine ⟨⟨?_, ?_⟩, ?_⟩
  · split <;> simp [Contribution.spans]
  · split <;> simp [Contribution.spans, Contribution.fail, hself]
  · split
    · simp [Contribution.spans, Contribution.fail, hself, hpath]
    · next args hform =>
      split
      · simpa [Contribution.spans, hpath] using propertyName_spans hform
      · split
        · simp [Contribution.spans, hpath]
        · next arg _ =>
          have harg := spans_of_arg hform List.mem_cons_self (AttrArg.span_mem_spans arg)
          simp [Contribution.spans, Contribution.fail, hpath, harg]
    · simp [Contribution.spans, hpath]

theorem contributions_spans (a : Attribute) :
    a.contributions.flatMap Contribution.spans ⊆ a.spans := by
  have hself : a.span ∈ a.spans := by simp [spans]
  rw [contributions]
  split
  · simp [Contribution.spans, Contribution.fail, hself]
  · split
    · exact kindTag_spans _ _ _
    · split
      · next items _ hform =>
        intro s hs
        obtain ⟨c, hc, hs⟩ := List.mem_flatMap.1 hs
        obtain ⟨o, ho, hc⟩ := List.mem_filterMap.1 hc
        obtain ⟨item, hitem, st, rfl⟩ := ArgsState.mem_readAll ho
        refine spans_of_arg hform hitem (ArgsState.read_spans st item ?_)
        split at hc
        · next m hread =>
          cases hc
          rwa [hread]
        · cases hc
        · next f hread =>
          cases hc
          rwa [hread]
      · next items _ hform =>
        intro s hs
        obtain ⟨c, hc, hs⟩ := List.mem_flatMap.1 hs
        obtain ⟨item, hitem, rfl⟩ := List.mem_map.1 hc
        refine spans_of_arg hform hitem ?_
        rw [exportOption.eq_def] at hs
        split at hs
        · split at hs
          · split at hs <;> simp_all [Contribution.spans, Contribution.fail, AttrArg.spans]
          · simp_all [Contribution.spans, Contribution.fail, AttrArg.spans]
        all_goals simp_all [Contribution.spans, Contribution.fail, AttrArg.spans]
      · next l _ hform =>
        have hl := spans_of_value hform
        rw [formerName]
        split <;> simp [Contribution.spans, Contribution.fail, hself, hl]
      · rw [signatureContribution]
        split
        · simp [Contribution.spans, hself]
        · simp [Contribution.spans, hself]
        · next l hform =>
          have hl := spans_of_value hform
          cases l.str? <;> simp [Contribution.spans, hself, hl]
      · simp [Contribution.spans]
      · simp [Contribution.spans]

end Attribute

namespace Summary

def spans (s : Summary) : List Span :=
  (s.kind.map (·.2)).toList ++ (s.name.map (·.2)).toList ++ s.marks.map ArgMark.span ++
    (s.signature.map SignatureRequest.span).toList ++ s.findings.map Finding.span

theorem mem_take_spans {s : Summary} {c : Contribution} {x : Span} (hx : x ∈ (s.take c).spans) :
    x ∈ s.spans ∨ x ∈ c.spans := by
  cases c with
  | kind k span =>
    cases hkind : s.kind <;> simp [take, report, spans, Contribution.spans, hkind] at hx ⊢ <;> grind
  | name n span =>
    cases hname : s.name <;> simp [take, report, spans, Contribution.spans, hname] at hx ⊢ <;> grind
  | signature request span =>
    cases hsig : s.signature <;> cases request <;>
      simp [take, report, spans, Contribution.spans, hsig] at hx ⊢ <;> grind
  | mark | docLine | deprecation | passthrough | finding =>
    simp [take, spans, Contribution.spans] at hx ⊢
    grind

theorem mem_foldl_take_spans {cs : List Contribution} {s : Summary} {x : Span}
    (hx : x ∈ (cs.foldl take s).spans) : x ∈ s.spans ∨ x ∈ cs.flatMap Contribution.spans := by
  induction cs generalizing s with
  | nil => exact Or.inl hx
  | cons c cs ih =>
    rw [List.flatMap_cons, List.mem_append]
    rcases ih hx with h | h
    · rcases mem_take_spans h with h | h
      · exact Or.inl h
      · exact Or.inr (Or.inl h)
    · exact Or.inr (Or.inr h)

theorem checkName_spans (s : Summary) : s.checkName.spans ⊆ s.spans := by
  intro x hx
  rw [checkName.eq_def] at hx
  split at hx
  · next kind kindSpan name span hkind hname =>
    split at hx
    · simp [report, spans, hkind, hname] at hx ⊢
      grind
    · exact hx
  · exact hx

theorem ofAttributes_spans (attrs : List Attribute) :
    (ofAttributes attrs).spans ⊆ attrs.flatMap Attribute.spans := by
  intro x hx
  rcases mem_foldl_take_spans (checkName_spans _ hx) with h | h
  · simp [spans] at h
  · obtain ⟨c, hc, hx⟩ := List.mem_flatMap.1 h
    obtain ⟨a, ha, hc⟩ := List.mem_flatMap.1 hc
    exact List.mem_flatMap.2 ⟨a, ha, a.contributions_spans (List.mem_flatMap.2 ⟨c, hc, hx⟩)⟩

end Summary

def PointIn (spans : List Span) (fs : List Finding) : Prop :=
  ∀ f ∈ fs, f.span ∈ spans

theorem MarkTable.add_pointIn (known : List String) (receiver : Option String) (t : MarkTable)
    (m : ArgMark) : PointIn [m.span] (t.add known receiver m).2 := by
  rw [add]
  split
  · simp [PointIn]
  · split <;> simp [PointIn]

theorem MarkTable.addAll_pointIn (known : List String) (receiver : Option String) (t : MarkTable)
    (ms : List ArgMark) : PointIn (ms.map ArgMark.span) (t.addAll known receiver ms).2 := by
  induction ms generalizing t with
  | nil => simp [PointIn, addAll]
  | cons m ms ih =>
    intro f hf
    rw [addAll] at hf
    rcases List.mem_append.1 hf with h | h
    · have := add_pointIn known receiver t m f h
      simp_all
    · exact List.mem_cons_of_mem _ (ih _ f h)

theorem OrderState.check_pointIn (s : OrderState) (ps : List PlannedParam) :
    PointIn (ps.map PlannedParam.span) (s.check ps) := by
  induction ps generalizing s with
  | nil => simp [PointIn, check]
  | cons p ps ih =>
    intro f hf
    rw [check] at hf
    rcases List.mem_append.1 hf with h | h
    · obtain ⟨fault, -, rfl⟩ := by simpa using h
      exact List.mem_cons_self
    · exact List.mem_cons_of_mem _ (ih _ f h)

theorem Dispatch.resolve_pointIn (kind : Dispatch) (params : List Param) (span : Span)
    (selfType : Option String) :
    PointIn (span :: params.map Param.span)
      (kind.resolve params (some span) selfType).findings := by
  intro f hf
  rcases List.mem_append.1 hf with h | h
  · obtain ⟨p, hp, rfl⟩ := List.mem_map.1 h
    have hmem := List.mem_of_mem_tail (List.mem_filter.1 hp).1
    exact List.mem_cons_of_mem _ (List.mem_map_of_mem hmem)
  · cases params with
    | nil =>
      rw [List.head?_nil] at h
      cases hr : kind.rules.receiver <;> simp_all [Resolution.ofFirst]
    | cons p ps =>
      have hp : p.span ∈ span :: (p :: ps).map Param.span := by simp
      rw [List.head?_cons, Resolution.ofFirst.eq_def] at h
      split at h
      case h_2 =>
        split at h <;> simp_all
      all_goals simp_all [Param.span]

theorem TypeExpr.findImpl?_span {t found : TypeExpr} (h : t.findImpl? = some found) :
    found.span ∈ t.spans :=
  List.mem_map_of_mem (List.mem_of_find?_eq_some h)

theorem genericFindings_pointIn (generics : List GenericParam) :
    PointIn (generics.map GenericParam.span) (genericFindings generics) := by
  intro f hf
  obtain ⟨g, hg, rfl⟩ := List.mem_map.1 hf
  exact List.mem_map_of_mem (List.mem_filter.1 hg).1

theorem resultFindings_pointIn (t : TypeExpr) : PointIn t.spans (resultFindings t) := by
  intro f hf
  obtain ⟨found, hfound, rfl⟩ := by simpa [resultFindings] using hf
  exact TypeExpr.findImpl?_span hfound

theorem implArgumentFindings_pointIn (params : List Param) :
    PointIn (params.flatMap Param.spans) (implArgumentFindings params) := by
  intro f hf
  obtain ⟨p, hp, h⟩ := List.mem_filterMap.1 hf
  refine List.mem_flatMap.2 ⟨p, hp, ?_⟩
  cases p with
  | self p => cases h
  | typed p =>
    obtain ⟨found, hfound, rfl⟩ := Option.map_eq_some_iff.1 h
    exact List.mem_cons_of_mem _ (TypeExpr.findImpl?_span hfound)

theorem patternFindings_pointIn (params : List Param) :
    PointIn (params.map Param.span) (patternFindings params) := by
  intro f hf
  obtain ⟨p, hp, h⟩ := List.mem_filterMap.1 hf
  cases p with
  | self p => cases h
  | typed p =>
    dsimp only at h
    split at h <;> cases h
    exact List.mem_map_of_mem hp

theorem textsOf_pointIn (rules : DispatchRules) (s : Summary) (d : Decl)
    (params : List PlannedParam) :
    PointIn (d.nameSpan :: d.span :: s.spans) (textsOf rules s d params).findings := by
  have hname : (s.name.map (·.2)).getD d.nameSpan ∈ d.nameSpan :: d.span :: s.spans := by
    cases hn : s.name <;> simp [Summary.spans, hn]
  intro f hf
  simp only [textsOf, List.mem_append] at hf
  rcases hf with ((h | h) | h) | h
  · obtain ⟨fault, -, rfl⟩ := List.mem_map.1 h
    exact List.mem_cons_self
  · obtain ⟨fault, -, rfl⟩ := List.mem_map.1 h
    exact hname
  · split at h
    · cases h
    · next request hs =>
      split at h
      · cases h
      · obtain rfl := List.mem_singleton.1 h
        simp [Summary.spans, hs]
  · obtain rfl := List.mem_singleton.1 (List.mem_ite_nil_right.1 h).2
    exact List.mem_cons_of_mem _ List.mem_cons_self

theorem Verdict.findings_of (plan : CallPlan) (fs : List Finding) :
    (Verdict.of plan fs).findings = fs := by
  cases fs <;> rfl

theorem PointIn.mono {spans spans' : List Span} {fs : List Finding} (h : PointIn spans fs)
    (hsub : spans ⊆ spans') : PointIn spans' fs :=
  fun f hf => hsub (h f hf)

theorem PointIn.append {spans : List Span} {fs gs : List Finding} (hf : PointIn spans fs)
    (hg : PointIn spans gs) : PointIn spans (fs ++ gs) := by
  intro f h
  rcases List.mem_append.1 h with h | h
  · exact hf f h
  · exact hg f h

namespace FnDecl

variable (types : List String) (d : FnDecl)

theorem rest_sublist : d.rest.Sublist d.params := by
  rw [rest]
  split
  · exact List.tail_sublist _
  · exact List.Sublist.refl _

theorem summary_spans : d.summary.spans ⊆ d.spans := fun s hs => by
  simp [spans, Summary.ofAttributes_spans d.attrs hs]

theorem params_spans : d.params.map Param.span ⊆ d.spans := by
  intro s hs
  obtain ⟨p, hp, rfl⟩ := List.mem_map.1 hs
  have hmem : p.span ∈ d.params.flatMap Param.spans :=
    List.mem_flatMap.2 ⟨p, hp, by cases p <;> simp [Param.span, Param.spans]⟩
  simp [spans, hmem]

theorem planned_spans : (d.planned types).map PlannedParam.span ⊆ d.spans := by
  intro s hs
  obtain ⟨p, hp, rfl⟩ := List.mem_map.1 hs
  obtain ⟨named, hnamed, rfl⟩ := List.mem_map.1 hp
  obtain ⟨param, hparam, h⟩ := List.mem_filterMap.1 hnamed
  cases param with
  | self q => cases h
  | typed q =>
    obtain ⟨name, -, rfl⟩ := Option.map_eq_some_iff.1 h
    exact d.params_spans (List.mem_map_of_mem (d.rest_sublist.subset hparam))

theorem asyncFindings_pointIn : PointIn d.spans d.asyncFindings := by
  intro f hf
  obtain ⟨span, hspan, rfl⟩ := by simpa [asyncFindings] using hf
  simp [spans, hspan]

theorem resultFindings_pointIn : PointIn d.spans (resultFindings (d.result.getD .unit)) := by
  cases hr : d.result with
  | none =>
    simp [PointIn, resultFindings, TypeExpr.findImpl?, TypeExpr.unit, TypeExpr.parts,
      TypeExpr.partsAll]
  | some t =>
    exact (NativeBinding.resultFindings_pointIn t).mono fun s hs => by simp [spans, hr, hs]

theorem resolution_pointIn : PointIn d.spans d.resolution.findings :=
  (Dispatch.resolve_pointIn _ _ _ _).mono
    (List.cons_subset.2 ⟨by simp [spans], d.params_spans⟩)

theorem surplusFindings_pointIn : PointIn d.spans d.surplusFindings := by
  intro f hf
  rw [surplusFindings] at hf
  split at hf
  · cases hf
  · obtain ⟨p, hp, rfl⟩ := by simpa using hf
    exact d.params_spans (List.mem_map_of_mem (d.rest_sublist.subset (List.mem_of_mem_head? hp)))

theorem marking_pointIn : PointIn d.spans d.marking.2 :=
  (MarkTable.addAll_pointIn _ _ _ _).mono fun s hs =>
    d.summary_spans (by simp only [Summary.spans, List.mem_append]; simp [hs])

theorem contextFindings_pointIn :
    PointIn d.spans (contextFindings d.marking.1 (d.planned types)) := by
  intro f hf
  obtain ⟨p, hp, rfl⟩ := List.mem_map.1 hf
  exact d.planned_spans types (List.mem_map_of_mem (List.mem_filter.1 hp).1)

theorem checkOrder_pointIn : PointIn d.spans (checkOrder (d.passed types)) :=
  (OrderState.check_pointIn _ _).mono fun _ hs =>
    d.planned_spans types ((List.filter_sublist.map PlannedParam.span).subset hs)

theorem texts_pointIn : PointIn d.spans (d.texts types).findings :=
  (textsOf_pointIn _ _ _ _).mono (List.cons_subset.2 ⟨by simp [spans, Decl.nameSpan],
    List.cons_subset.2 ⟨by simp [spans, Decl.span], d.summary_spans⟩⟩)

/-- The findings on a function: those on its block stand in one piece among those on itself. -/
theorem findings_split :
    ∃ before after, (d.verdict types).findings = before ++ blockFindings d.block ++ after ∧
      PointIn d.spans before ∧ PointIn d.spans after := by
  refine ⟨d.summary.findings ++ d.asyncFindings ++ genericFindings d.generics,
    implArgumentFindings d.params ++ resultFindings (d.result.getD .unit) ++
      d.resolution.findings ++ d.surplusFindings ++ patternFindings d.rest ++ d.marking.2 ++
      contextFindings d.marking.1 (d.planned types) ++ checkOrder (d.passed types) ++
      (d.texts types).findings, ?_, ?_, ?_⟩
  · rw [verdict_eq, Verdict.findings_of]
    simp only [List.append_assoc]
  · have hsummary : PointIn d.spans d.summary.findings := fun f hf =>
      d.summary_spans (List.mem_append_right _ (List.mem_map_of_mem hf))
    have hgenerics : PointIn d.spans (genericFindings d.generics) :=
      (genericFindings_pointIn d.generics).mono (List.subset_append_right _ _)
    exact (hsummary.append d.asyncFindings_pointIn).append hgenerics
  · have himpl : PointIn d.spans (implArgumentFindings d.params) :=
      (implArgumentFindings_pointIn d.params).mono fun s hs => by simp [spans, hs]
    have hpatterns : PointIn d.spans (patternFindings d.rest) :=
      (patternFindings_pointIn d.rest).mono fun s hs =>
        d.params_spans ((d.rest_sublist.map Param.span).subset hs)
    exact (((((((himpl.append d.resultFindings_pointIn).append d.resolution_pointIn).append
      d.surplusFindings_pointIn).append hpatterns).append d.marking_pointIn).append
      (d.contextFindings_pointIn types)).append (d.checkOrder_pointIn types)).append
      (d.texts_pointIn types)

end FnDecl

theorem ConstDecl.findings_split (d : ConstDecl) :
    ∃ before after, d.verdict.findings = before ++ blockFindings d.block ++ after ∧
      PointIn d.spans before ∧ PointIn d.spans after := by
  let s := Summary.ofAttributes d.attrs
  have hs : s.spans ⊆ d.spans := fun x hx => by simp [spans, Summary.ofAttributes_spans d.attrs hx]
  have hname : d.nameSpan ∈ d.spans := by simp [spans]
  have hself : d.span ∈ d.spans := by simp [spans]
  have hsummary : PointIn d.spans s.findings := fun f hf =>
    hs (List.mem_append_right _ (List.mem_map_of_mem hf))
  have hdispatch : PointIn d.spans (d.dispatchFindings s) := by
    intro f hf
    rw [dispatchFindings.eq_def] at hf
    split at hf
    · cases hf
    · next k span _ hkind =>
      obtain rfl := List.mem_singleton.1 hf
      exact hs (by simp [Summary.spans, hkind])
    · obtain rfl := List.mem_singleton.1 hf
      exact hname
  have hresult : PointIn d.spans (resultFindings d.type) :=
    (resultFindings_pointIn d.type).mono fun x hx => by simp [spans, hx]
  have hmarking : PointIn d.spans (MarkTable.build s.marks [] none).2 :=
    (MarkTable.addAll_pointIn _ _ _ _).mono fun x hx =>
      hs (by simp only [Summary.spans, List.mem_append]; simp [hx])
  have htexts : PointIn d.spans
      (textsOf Dispatch.classAttribute.rules s (.const d) []).findings :=
    (textsOf_pointIn _ _ _ _).mono (List.cons_subset.2 ⟨hname, List.cons_subset.2 ⟨hself, hs⟩⟩)
  refine ⟨s.findings ++ d.dispatchFindings s,
    resultFindings d.type ++ (MarkTable.build s.marks [] none).2 ++
      (textsOf Dispatch.classAttribute.rules s (.const d) []).findings,
    ?_, hsummary.append hdispatch, (hresult.append hmarking).append htexts⟩
  rw [verdict, Verdict.findings_of]
  simp only [List.append_assoc]
  rfl

theorem Decl.findings_split (types : List String) (d : Decl) :
    ∃ before after, (d.verdict types).findings = before ++ blockFindings d.block ++ after ∧
      PointIn d.spans before ∧ PointIn d.spans after := by
  cases d with
  | fn d => exact d.findings_split types
  | const d => exact d.findings_split

end NativeBinding
