import NativeBinding.Decl.Parse
import NativeBinding.Proofs.Binding.Accepted
import NativeBinding.Proofs.Binding.MarkTable
import NativeBinding.Proofs.Binding.Summaries

/-!
The order of attributes. Where nothing is found, at most one attribute sets each of the kind, the
name and the signature, at most one is deprecated, and no two marks name one parameter: so only the
order of the documentation is left to matter.
-/

namespace NativeBinding

theorem eq_of_perm_of_length_le_one {α : Type} {l l' : List α} (h : l'.Perm l)
    (hl : l.length ≤ 1) : l' = l := by
  rcases l with _ | ⟨a, _ | ⟨b, l⟩⟩
  · exact h.eq_nil
  · exact h.eq_singleton
  · simp at hl

open Contribution

namespace Attribute

variable {a : Attribute} {cs : List Contribution}

theorem Contributes.docLines (h : a.Contributes cs) (hdoc : a.isDoc = false) :
    cs.filterMap docLine? = [] := by
  have htag (kind : Dispatch) : ∀ c ∈ a.kindTag kind none, c.docLine? = none := by
    intro c hc
    rcases mem_kindTag hc with rfl | ⟨n, span, rfl⟩ | ⟨f, rfl⟩ <;> rfl
  rw [List.filterMap_eq_nil_iff]
  intro c hc
  cases h with
  | tag kind => exact htag kind c hc
  | formerTag kind other =>
    rw [kindTag_some] at hc
    rcases List.mem_cons.1 hc with rfl | hc
    · rfl
    · exact htag kind c hc
  | args => rcases mem_argsContributions hc with ⟨m, rfl⟩ | ⟨f, rfl⟩ <;> rfl
  | options items =>
    obtain ⟨arg, -, rfl⟩ := List.mem_map.1 hc
    rcases exportOption_spec arg with ⟨n, span, h⟩ | ⟨f, h⟩ <;> (rw [h]; rfl)
  | formerName notice name =>
    rcases List.mem_cons.1 hc with rfl | hc
    · rfl
    · rw [List.mem_singleton.1 hc]
      rfl
  | docLine line h => simp [h] at hdoc
  | disabled _ | malformedName _ | signature _ | other =>
    rw [List.mem_singleton.1 hc]
    rfl

theorem Contributes.deprecations_le (h : a.Contributes cs) :
    (cs.filterMap deprecation?).length ≤ cs.countP settlesName := by
  have hnone {cs : List Contribution} (hcs : ∀ c ∈ cs, c.deprecation? = none) :
      (cs.filterMap deprecation?).length = 0 := by
    rw [List.filterMap_eq_nil_iff.2 hcs, List.length_nil]
  have htag (kind : Dispatch) : ∀ c ∈ a.kindTag kind none, c.deprecation? = none := by
    intro c hc
    rcases mem_kindTag hc with rfl | ⟨n, span, rfl⟩ | ⟨f, rfl⟩ <;> rfl
  cases h with
  | formerTag kind other hforced =>
    have hpos : 0 < (a.kindTag kind none).countP settlesName :=
      List.countP_pos_iff.2 ⟨_, kind_mem_kindTag a kind, hforced⟩
    rw [kindTag_some, filterMap_cons_toList, List.length_append, hnone (htag kind),
      List.countP_cons]
    exact Nat.le_trans hpos (Nat.le_add_right _ _)
  | formerName notice name => exact Nat.le_refl 1
  | tag kind => exact Nat.le_trans (Nat.le_of_eq (hnone (htag kind))) (Nat.zero_le _)
  | args =>
    refine Nat.le_trans (Nat.le_of_eq (hnone fun c hc => ?_)) (Nat.zero_le _)
    rcases mem_argsContributions hc with ⟨m, rfl⟩ | ⟨f, rfl⟩ <;> rfl
  | options items =>
    refine Nat.le_trans (Nat.le_of_eq (hnone fun c hc => ?_)) (Nat.zero_le _)
    obtain ⟨arg, -, rfl⟩ := List.mem_map.1 hc
    rcases exportOption_spec arg with ⟨n, span, h⟩ | ⟨f, h⟩ <;> (rw [h]; rfl)
  | disabled _ | malformedName _ | signature _ | docLine _ _ | other => exact Nat.zero_le _

end Attribute

namespace Summary

variable {attrs attrs' : List Attribute}

theorem docLines_eq (attrs : List Attribute) :
    (ofAttributes attrs).docLines = (ofAttributes (attrs.filter Attribute.isDoc)).docLines := by
  rw [ofAttributes_docLines, ofAttributes_docLines, contributions, contributions,
    List.filterMap_flatMap, List.filterMap_flatMap]
  induction attrs with
  | nil => rfl
  | cons a attrs ih =>
    rw [List.flatMap_cons, ih, List.filter_cons]
    split
    · rw [List.flatMap_cons]
    · next h => rw [a.contributes.docLines (by simpa using h), List.nil_append]

theorem countP_settlesName (cs : List Contribution) :
    cs.countP settlesName =
      (cs.filterMap kind?).countP (fun k => k.1.rules.forcedName?.isSome) +
        (cs.filterMap name?).length := by
  induction cs with
  | nil => rfl
  | cons c cs ih =>
    rw [List.countP_cons, ih, filterMap_cons_toList, filterMap_cons_toList, List.countP_append,
      List.length_append]
    cases c with
    | kind k _ =>
      cases hk : k.rules.forcedName? <;> simp [kind?, name?, settlesName, hk]
      omega
    | _ => simp [kind?, name?, settlesName] <;> omega

theorem deprecations_le (attrs : List Attribute) :
    (ofAttributes attrs).deprecations.length ≤ (contributions attrs).countP settlesName := by
  rw [ofAttributes_deprecations, contributions]
  induction attrs with
  | nil => exact Nat.le_refl 0
  | cons a attrs ih =>
    have := a.contributes.deprecations_le
    rw [List.flatMap_cons, List.filterMap_append, List.length_append, List.countP_append]
    omega

/-- Without findings at most one attribute is deprecated: each settles the external name, which is
settled once. -/
theorem deprecations_length_le_one (h : (ofAttributes attrs).findings = []) :
    (ofAttributes attrs).deprecations.length ≤ 1 := by
  obtain ⟨hsettled, hforced⟩ := (ofAttributes_findings_eq_nil_iff attrs).1 h
  refine Nat.le_trans (deprecations_le attrs) ?_
  rw [countP_settlesName]
  have hkinds := hsettled.kind
  have hnames := hsettled.name
  rw [ofAttributes_kind, ofAttributes_name] at hforced
  cases hk : (contributions attrs).filterMap kind? with
  | nil => simpa using hnames
  | cons k ks =>
    cases hn : (contributions attrs).filterMap name? with
    | nil =>
      have hle := List.countP_le_length
        (p := fun k : Dispatch × Span => k.1.rules.forcedName?.isSome) (l := k :: ks)
      simp_all
    | cons n ns =>
      have := hforced k n (by rw [hk]; rfl) (by rw [hn]; rfl)
      simp_all

theorem settled_of_perm {cs cs' : List Contribution} (h : Settled {} cs) (hperm : cs'.Perm cs) :
    Settled {} cs' where
  kind := by
    rw [(hperm.filterMap kind?).length_eq]
    exact h.kind
  name := by
    rw [(hperm.filterMap name?).length_eq]
    exact h.name
  signature := by
    rw [(hperm.filterMap signature?).length_eq]
    exact h.signature
  wellFormed span hmem := h.wellFormed span (hperm.mem_iff.1 hmem)
  findings f hmem := h.findings f (hperm.mem_iff.1 hmem)

/-- Two summaries that differ at most in the order of marks and of what they pass through. -/
structure Alike (s s' : Summary) : Prop where
  kind : s'.kind = s.kind
  name : s'.name = s.name
  signature : s'.signature = s.signature
  docLines : s'.docLines = s.docLines
  deprecations : s'.deprecations = s.deprecations
  marks : s'.marks.Perm s.marks

/-- Attributes without findings can stand in any order in which the documentation reads the same. -/
theorem ofAttributes_perm (hperm : attrs'.Perm attrs)
    (hdocs : attrs'.filter Attribute.isDoc = attrs.filter Attribute.isDoc)
    (h : (ofAttributes attrs).findings = []) :
    (ofAttributes attrs').findings = [] ∧ (ofAttributes attrs).Alike (ofAttributes attrs') := by
  have hcs : (contributions attrs').Perm (contributions attrs) := hperm.flatMap_right _
  obtain ⟨hsettled, hforced⟩ := (ofAttributes_findings_eq_nil_iff attrs).1 h
  have hone {β : Type} {g : Contribution → Option β}
      (hle : 0 + ((contributions attrs).filterMap g).length ≤ 1) :
      (contributions attrs').filterMap g = (contributions attrs).filterMap g :=
    eq_of_perm_of_length_le_one (hcs.filterMap g) (by omega)
  have hkind : (ofAttributes attrs').kind = (ofAttributes attrs).kind := by
    rw [ofAttributes_kind, ofAttributes_kind, hone hsettled.kind]
  have hname : (ofAttributes attrs').name = (ofAttributes attrs).name := by
    rw [ofAttributes_name, ofAttributes_name, hone hsettled.name]
  refine ⟨(ofAttributes_findings_eq_nil_iff attrs').2 ⟨settled_of_perm hsettled hcs, ?_⟩,
    hkind, hname, ?_, ?_, ?_, ?_⟩
  · rwa [hkind, hname]
  · rw [ofAttributes_signature, ofAttributes_signature, hone hsettled.signature]
  · rw [docLines_eq attrs', docLines_eq attrs, hdocs]
  · have hle := deprecations_length_le_one h
    rw [ofAttributes_deprecations] at hle ⊢
    rw [ofAttributes_deprecations]
    exact eq_of_perm_of_length_le_one (hcs.filterMap _) hle
  · rw [ofAttributes_marks, ofAttributes_marks]
    exact hcs.filterMap _

end Summary

namespace MarkTable

variable {ms ms' : List ArgMark} {params : List String} {receiver : Option String}

theorem build_perm (hperm : ms'.Perm ms) (h : (build ms params receiver).2 = []) :
    (build ms' params receiver).2 = [] ∧
      (build ms' params receiver).1.find? = (build ms params receiver).1.find? := by
  have h' : (build ms' params receiver).2 = [] := by
    obtain ⟨hknown, hnodup⟩ := build_findings_eq_nil_iff.1 h
    exact build_findings_eq_nil_iff.2
      ⟨fun m hm => hknown m (hperm.mem_iff.1 hm), (hperm.map _).nodup_iff.2 hnodup⟩
  refine ⟨h', funext fun name => Option.ext fun m => ?_⟩
  rw [find?_build_iff (Prod.ext rfl h') name, find?_build_iff (Prod.ext rfl h) name, hperm.mem_iff]

end MarkTable

theorem planParam_congr {t t' : MarkTable} (h : t'.find? = t.find?) (types : List String) :
    planParam types t' = planParam types t := by
  funext named
  simp only [planParam, MarkTable.roleOf, MarkTable.defaultOf, h]

theorem contextFindings_congr {t t' : MarkTable} (h : t'.find? = t.find?)
    (params : List PlannedParam) : contextFindings t' params = contextFindings t params := by
  simp only [contextFindings, MarkTable.contains, h]

def FnDecl.withAttrs (d : FnDecl) (attrs : List Attribute) : FnDecl :=
  { d with attrs }

def ConstDecl.withAttrs (d : ConstDecl) (attrs : List Attribute) : ConstDecl :=
  { d with attrs }

def Decl.withAttrs (attrs : List Attribute) : Decl → Decl
  | .fn d => .fn (d.withAttrs attrs)
  | .const d => .const (d.withAttrs attrs)

theorem textsOf_congr {s s' : Summary} (h : s.Alike s') (rules : DispatchRules) {d d' : Decl}
    (hname : d'.name = d.name) (hnameSpan : d'.nameSpan = d.nameSpan) (hspan : d'.span = d.span)
    (params : List PlannedParam) : textsOf rules s' d' params = textsOf rules s d params := by
  simp only [textsOf, h.name, h.signature, h.docLines, hname, hnameSpan, hspan]

namespace FnDecl

variable {types : List String} {d : FnDecl} {attrs : List Attribute}

theorem dispatch_eq_of_alike {s s' : Summary} (h : s.Alike s') : s'.dispatch = s.dispatch := by
  rw [Summary.dispatch, Summary.dispatch, h.kind]

theorem accepted_withAttrs (h : d.Accepted types) (hperm : attrs.Perm d.attrs)
    (hdocs : attrs.filter Attribute.isDoc = d.attrs.filter Attribute.isDoc) :
    (d.withAttrs attrs).Accepted types ∧ (d.withAttrs attrs).plan types = d.plan types := by
  obtain ⟨hsummary, halike⟩ : (d.withAttrs attrs).summary.findings = [] ∧
      d.summary.Alike (d.withAttrs attrs).summary :=
    Summary.ofAttributes_perm hperm hdocs h.summary
  have hdispatch := dispatch_eq_of_alike halike
  have hresolution : (d.withAttrs attrs).resolution = d.resolution := by
    rw [resolution, resolution, hdispatch]
    rfl
  have hrest : (d.withAttrs attrs).rest = d.rest := by
    rw [rest, rest, hresolution]
    rfl
  obtain ⟨hmarking, hfind⟩ :
      (d.withAttrs attrs).marking.2 = [] ∧
        (d.withAttrs attrs).marking.1.find? = d.marking.1.find? := by
    rw [marking, marking, hrest, hresolution]
    exact MarkTable.build_perm halike.marks h.marking
  have hplanned : (d.withAttrs attrs).planned types = d.planned types := by
    rw [planned, planned, hrest, planParam_congr hfind]
  have hpassed : (d.withAttrs attrs).passed types = d.passed types := by
    rw [passed, passed, hplanned]
  have htexts : (d.withAttrs attrs).texts types = d.texts types := by
    rw [texts, texts, hpassed, hdispatch]
    exact textsOf_congr halike _ rfl rfl rfl _
  refine ⟨⟨hsummary, h.async, h.generics, h.block, h.implArguments, h.result, ?_, ?_, ?_, hmarking,
    ?_, ?_, ?_⟩, ?_⟩
  · rw [hresolution]
    exact h.resolution
  · rw [surplusFindings, hdispatch, hrest]
    exact h.surplus
  · rw [hrest]
    exact h.patterns
  · rw [hplanned, contextFindings_congr hfind]
    exact h.context
  · rw [hpassed]
    exact h.order
  · rw [htexts]
    exact h.texts
  · rw [plan, plan, hdispatch, hresolution, htexts, hplanned, halike.deprecations]
    rfl

theorem verdict_withAttrs {plan : CallPlan} (h : d.verdict types = .accepted plan)
    (hperm : attrs.Perm d.attrs)
    (hdocs : attrs.filter Attribute.isDoc = d.attrs.filter Attribute.isDoc) :
    (d.withAttrs attrs).verdict types = .accepted plan := by
  obtain ⟨haccepted, rfl⟩ := verdict_eq_accepted_iff.1 h
  obtain ⟨haccepted', hplan⟩ := accepted_withAttrs haccepted hperm hdocs
  exact verdict_eq_accepted_iff.2 ⟨haccepted', hplan.symm⟩

end FnDecl

namespace ConstDecl

variable {d : ConstDecl} {attrs : List Attribute} {plan : CallPlan}

theorem verdict_withAttrs (h : d.verdict = .accepted plan) (hperm : attrs.Perm d.attrs)
    (hdocs : attrs.filter Attribute.isDoc = d.attrs.filter Attribute.isDoc) :
    (d.withAttrs attrs).verdict = .accepted plan := by
  obtain ⟨haccepted, rfl⟩ := verdict_eq_accepted_iff.1 h
  obtain ⟨hsummary, halike⟩ : (d.withAttrs attrs).summary.findings = [] ∧
      d.summary.Alike (d.withAttrs attrs).summary :=
    Summary.ofAttributes_perm hperm hdocs haccepted.summary
  have htexts : (d.withAttrs attrs).texts = d.texts :=
    textsOf_congr halike _ rfl rfl rfl _
  refine verdict_eq_accepted_iff.2 ⟨⟨hsummary, ?_, haccepted.block, haccepted.result, ?_, ?_⟩, ?_⟩
  · rw [dispatchFindings, halike.kind]
    exact haccepted.dispatch
  · exact (MarkTable.build_perm halike.marks haccepted.marking).1
  · rw [htexts]
    exact haccepted.texts
  · rw [ConstDecl.plan, ConstDecl.plan, htexts, halike.deprecations]
    rfl

end ConstDecl

/-- An accepted declaration has the same plan with its attributes in any order, if only those with
documentation keep theirs. -/
theorem Decl.verdict_withAttrs_of_perm {types : List String} {d : Decl} {plan : CallPlan}
    (h : d.verdict types = .accepted plan) {attrs : List Attribute} (hperm : attrs.Perm d.attrs)
    (hdocs : attrs.filter Attribute.isDoc = d.attrs.filter Attribute.isDoc) :
    (d.withAttrs attrs).verdict types = .accepted plan := by
  cases d with
  | fn d => exact FnDecl.verdict_withAttrs h hperm hdocs
  | const d => exact ConstDecl.verdict_withAttrs h hperm hdocs

def docsLast (attrs : List Attribute) : List Attribute :=
  attrs.filter (!·.isDoc) ++ attrs.filter Attribute.isDoc

def attributeOrders? (text : String) : Option (List String × List String) :=
  match Decl.parse text with
  | .ok d =>
      (d.verdict defaultContextTypes).plan?.map fun _ =>
        (d.attrs.map Attribute.name, (docsLast d.attrs).map Attribute.name)
  | .error _ => none

theorem exists_of_attributeOrders? {text : String} {orders : List String × List String}
    (h : attributeOrders? text = some orders) :
    ∃ d plan, Decl.parse text = .ok d ∧ d.verdict defaultContextTypes = .accepted plan ∧
      (d.attrs.map Attribute.name, (docsLast d.attrs).map Attribute.name) = orders := by
  rw [attributeOrders?] at h
  split at h
  · next d hd =>
    obtain ⟨plan, hplan, horders⟩ := Option.map_eq_some_iff.1 h
    refine ⟨d, plan, hd, ?_, horders⟩
    cases hv : d.verdict defaultContextTypes <;> simp_all [Verdict.plan?]
  · cases h

theorem Decl.verdict_of_docs_last : ∃ d plan,
    Decl.parse ("#[doc = \"a\"] #[name = \"g\"] #[args(x = \"1\")] #[doc = \"b\"] " ++
      "#[staticmethod] fn f(x: T);") = .ok d ∧
    d.attrs.map Attribute.name = ["doc", "name", "args", "doc", "staticmethod"] ∧
    (docsLast d.attrs).map Attribute.name = ["name", "args", "staticmethod", "doc", "doc"] ∧
    d.verdict defaultContextTypes = .accepted plan ∧
    (d.withAttrs (docsLast d.attrs)).verdict defaultContextTypes = .accepted plan := by
  have horders : attributeOrders? ("#[doc = \"a\"] #[name = \"g\"] #[args(x = \"1\")] " ++
      "#[doc = \"b\"] #[staticmethod] fn f(x: T);") =
        some (["doc", "name", "args", "doc", "staticmethod"],
          ["name", "args", "staticmethod", "doc", "doc"]) := by decide +kernel
  obtain ⟨d, plan, hd, h, horders⟩ := exists_of_attributeOrders? horders
  obtain ⟨hnames, hlast⟩ := Prod.mk.inj horders
  refine ⟨d, plan, hd, hnames, hlast, h, Decl.verdict_withAttrs_of_perm h ?_ ?_⟩
  · exact List.perm_append_comm.trans (List.filter_append_perm Attribute.isDoc d.attrs)
  · simp [docsLast, List.filter_append]

end NativeBinding
