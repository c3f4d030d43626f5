import NativeBinding.Proofs.Binding.Accepted
import NativeBinding.Proofs.Binding.Classification

/-!
Codes that one stage alone reports. The faults of classification are its own, and each code that is
about the shape of a declaration belongs to one check of assembly.
-/

namespace NativeBinding

def Fault.Classifies (f : Fault) : Prop :=
  f.phase = "classify"

def repeatCodes : List String :=
  ["duplicate-binding-kind", "duplicate-name-override", "duplicate-text-signature"]

namespace Fault

/-- The faults that an attribute has by itself, whatever stands around it. -/
def isSingle : Fault → Bool
  | initDisabled | innerProperty | unexpectedValue _ | unexpectedArguments _ | propertyNameCount
  | propertyNameType | propertyNameIdent _ | propertyNameShape | nameType | unknownExportOption _
  | afterKwargs _ | secondSeparator | separatorAfterVarargs _ | argsLiteral | argsPath _
  | defaultType | secondVarargs _ | varargsAfterSeparator | secondKwargs _ | emptyDefault _ => true
  | _ => false

theorem classifies_of_isSingle {f : Fault} (h : f.isSingle) : f.Classifies := by
  cases f <;> first
    | rfl
    | exact absurd h Bool.false_ne_true

theorem code_notMem_of_isSingle {f : Fault} (h : f.isSingle) : f.code ∉ repeatCodes := by
  cases f <;> first
    | exact absurd h Bool.false_ne_true
    | simp [code, repeatCodes]

end Fault

def ItemOutcome.IsSingle : ItemOutcome → Prop
  | fault f => f.fault.isSingle
  | _ => True

def Contribution.IsSingle : Contribution → Prop
  | finding f => f.fault.isSingle
  | _ => True

theorem ArgsState.isSingle_read (s : ArgsState) (item : AttrArg) : (s.read item).IsSingle := by
  unfold read readSeparator readAssign readVarargs readKwargs readDefault beforeKwargs
  repeat' split
  all_goals trivial

namespace Attribute

theorem isSingle_propertyName (a : Attribute) (args : List AttrArg) :
    (a.propertyName args).IsSingle := by
  unfold propertyName
  repeat' split
  all_goals trivial

theorem isSingle_exportOption (arg : AttrArg) : (exportOption arg).IsSingle := by
  unfold exportOption
  repeat' split
  all_goals trivial

theorem isSingle_kindTag {a : Attribute} {kind : Dispatch} {replacement : Option String} :
    ∀ c ∈ a.kindTag kind replacement, c.IsSingle := by
  have hname := a.isSingle_propertyName
  unfold kindTag
  simp only [List.forall_mem_append]
  refine ⟨⟨?_, ?_⟩, ?_⟩
  · split <;> simp [Contribution.IsSingle]
  · split <;> simp [Contribution.IsSingle, Contribution.fail, Fault.isSingle]
  · repeat' split
    all_goals simp [Contribution.IsSingle, Contribution.fail, Fault.isSingle]
    exact hname _

theorem isSingle_argsContributions (items : List AttrArg) :
    ∀ c ∈ argsContributions items, c.IsSingle := by
  intro c hc
  obtain ⟨o, ho, hmark⟩ := List.mem_filterMap.1 hc
  obtain ⟨item, -, s, rfl⟩ := ArgsState.mem_readAll ho
  have hread := s.isSingle_read item
  split at hmark
  · cases hmark
    trivial
  · cases hmark
  · next hfault =>
    cases hmark
    rwa [hfault] at hread

theorem isSingle_contributions (a : Attribute) : ∀ c ∈ a.contributions, c.IsSingle := by
  unfold contributions
  split
  · simp [Contribution.IsSingle, Contribution.fail, Fault.isSingle]
  · split
    · exact isSingle_kindTag
    · split
      · exact isSingle_argsContributions _
      · intro c hc
        obtain ⟨item, -, rfl⟩ := List.mem_map.1 hc
        exact isSingle_exportOption item
      · unfold formerName
        split <;> simp [Contribution.IsSingle, Contribution.fail, Fault.isSingle]
      · unfold signatureContribution
        split <;> simp [Contribution.IsSingle]
      · simp [Contribution.IsSingle]
      · simp [Contribution.IsSingle]

end Attribute

namespace Summary

def Classifies (s : Summary) : Prop :=
  ∀ f ∈ s.findings, f.fault.Classifies

theorem Classifies.report {s : Summary} (h : s.Classifies) {f : Fault} (hf : f.Classifies)
    (span : Span) : (s.report f span).Classifies := by
  intro g hg
  rcases List.mem_append.1 hg with hg | hg
  · exact h g hg
  · rw [List.mem_singleton.1 hg]
    exact hf

theorem Classifies.take {s : Summary} (h : s.Classifies) {c : Contribution} (hc : c.IsSingle) :
    (s.take c).Classifies := by
  cases c with
  | finding f => exact h.report (Fault.classifies_of_isSingle hc) f.span
  | kind _ _ | name _ _ | signature _ _ =>
    simp only [Summary.take]
    split
    all_goals first
      | exact h
      | refine h.report ?_ _
        exact rfl
  | mark _ | docLine _ | deprecation _ | passthrough _ => exact h

theorem Classifies.foldl_take {s : Summary} (h : s.Classifies) {cs : List Contribution}
    (hcs : ∀ c ∈ cs, c.IsSingle) : (cs.foldl Summary.take s).Classifies := by
  induction cs generalizing s with
  | nil => exact h
  | cons c cs ih =>
    rw [List.forall_mem_cons] at hcs
    exact ih (h.take hcs.1) hcs.2

theorem classifies_ofAttributes (attrs : List Attribute) : (ofAttributes attrs).Classifies := by
  have hfold : ((attrs.flatMap Attribute.contributions).foldl Summary.take {}).Classifies := by
    refine Classifies.foldl_take (fun f hf => absurd hf List.not_mem_nil) fun c hc => ?_
    obtain ⟨a, -, hc⟩ := List.mem_flatMap.1 hc
    exact a.isSingle_contributions c hc
  unfold ofAttributes checkName
  repeat' split
  all_goals first
    | exact hfold
    | refine hfold.report ?_ _
      exact rfl

end Summary

def shapeCodes : List String :=
  ["async-fn", "generic-parameter", "generic-impl", "impl-trait-argument", "impl-trait-return",
   "const-binding-kind"]

namespace Fault

def Shapeless (f : Fault) : Prop :=
  f.code ∉ shapeCodes

def isOfShape : Fault → Bool
  | asyncFn | genericParameter | genericImpl _ | implArgument | implReturn | constantDispatch =>
      true
  | signatureNotAllowed code _ => shapeCodes.contains code
  | _ => false

theorem isOfShape_iff (f : Fault) : f.isOfShape ↔ f.code ∈ shapeCodes := by
  cases f <;> simp [isOfShape, code, shapeCodes]

theorem shapeless {f : Fault} (h : f.isOfShape = false) : f.Shapeless := by
  rw [Shapeless, ← isOfShape_iff, h]
  exact Bool.false_ne_true

theorem Classifies.shapeless {f : Fault} (h : f.Classifies) : f.Shapeless := by
  rw [Fault.Classifies] at h
  cases f <;> first
    | exact Fault.shapeless rfl
    | simp [phase] at h

end Fault

/-- Findings about anything but the shape of a declaration. -/
def Shapeless (fs : List Finding) : Prop :=
  ∀ f ∈ fs, f.fault.Shapeless

theorem shapeless_nil : Shapeless [] :=
  fun _ hf => absurd hf List.not_mem_nil

theorem shapeless_singleton {f : Finding} (h : f.fault.isOfShape = false) : Shapeless [f] :=
  List.forall_mem_singleton.2 (Fault.shapeless h)

theorem Shapeless.append {fs gs : List Finding} (hf : Shapeless fs) (hg : Shapeless gs) :
    Shapeless (fs ++ gs) :=
  List.forall_mem_append.2 ⟨hf, hg⟩

theorem Summary.shapeless_findings (attrs : List Attribute) :
    Shapeless (Summary.ofAttributes attrs).findings :=
  fun f hf => (Summary.classifies_ofAttributes attrs f hf).shapeless

theorem Dispatch.shapeless_resolve (kind : Dispatch) (params : List Param) (span : Option Span)
    (selfType : Option String) : Shapeless (kind.resolve params span selfType).findings := by
  refine Shapeless.append (fun f hf => ?_) ?_
  · obtain ⟨p, -, rfl⟩ := List.mem_map.1 hf
    exact Fault.shapeless rfl
  · unfold Resolution.ofFirst
    repeat' split
    all_goals first
      | exact shapeless_nil
      | refine shapeless_singleton ?_
        rfl

theorem FnDecl.shapeless_surplusFindings (d : FnDecl) : Shapeless d.surplusFindings := by
  unfold surplusFindings
  split
  · exact shapeless_nil
  · intro f hf
    obtain ⟨p, -, rfl⟩ := Option.map_eq_some_iff.1 (Option.mem_toList.1 hf)
    exact Fault.shapeless rfl

theorem shapeless_patternFindings (params : List Param) : Shapeless (patternFindings params) := by
  intro f hf
  obtain ⟨p, -, hp⟩ := List.mem_filterMap.1 hf
  cases p with
  | self p => cases hp
  | typed p =>
    dsimp only at hp
    split at hp <;> cases hp
    exact Fault.shapeless rfl

theorem ArgMark.shapeless_conflict (first later : ArgMark) :
    (first.conflict later).Shapeless := by
  unfold conflict
  repeat' split
  all_goals exact Fault.shapeless rfl

namespace MarkTable

theorem shapeless_add (known : List String) (receiver : Option String) (t : MarkTable)
    (m : ArgMark) : Shapeless (t.add known receiver m).2 := by
  rw [add]
  split
  · exact shapeless_singleton rfl
  · split
    · next first _ => exact List.forall_mem_singleton.2 (first.shapeless_conflict m)
    · exact shapeless_nil

theorem shapeless_addAll (known : List String) (receiver : Option String) (t : MarkTable)
    (ms : List ArgMark) : Shapeless (t.addAll known receiver ms).2 := by
  induction ms generalizing t with
  | nil => exact shapeless_nil
  | cons m ms ih =>
    rw [addAll]
    exact (shapeless_add known receiver t m).append (ih _)

theorem shapeless_build (marks : List ArgMark) (params : List String) (receiver : Option String) :
    Shapeless (build marks params receiver).2 :=
  shapeless_addAll _ _ _ _

end MarkTable

theorem shapeless_contextFindings (table : MarkTable) (params : List PlannedParam) :
    Shapeless (contextFindings table params) := by
  intro f hf
  obtain ⟨p, -, rfl⟩ := List.mem_map.1 hf
  exact Fault.shapeless rfl

theorem OrderState.shapeless_fault? {s : OrderState} {p : PlannedParam} {f : Fault}
    (h : s.fault? p = some f) : f.Shapeless := by
  unfold fault? at h
  repeat' split at h
  all_goals first
    | cases h
      exact Fault.shapeless rfl
    | obtain ⟨_, -, rfl⟩ := Option.map_eq_some_iff.1 h
      exact Fault.shapeless rfl
    | cases h

theorem OrderState.shapeless_check (s : OrderState) (ps : List PlannedParam) :
    Shapeless (s.check ps) := by
  induction ps generalizing s with
  | nil => exact shapeless_nil
  | cons p ps ih =>
    rw [check]
    refine Shapeless.append (fun f hf => ?_) (ih _)
    obtain ⟨fault, hfault, rfl⟩ := by simpa using hf
    exact shapeless_fault? hfault

theorem Dispatch.shapeless_refused {kind : Dispatch} {code message : String}
    (h : kind.rules.signature = .refused code message) :
    (Fault.signatureNotAllowed code message).Shapeless := by
  cases kind <;> cases h <;> exact Fault.shapeless (by simp [Fault.isOfShape, shapeCodes])

theorem Dispatch.shapeless_signatureOf {kind : Dispatch} {request : SignatureRequest}
    {params : List PlannedParam} {f : Fault}
    (h : signatureOf kind.rules request params = .error f) : f.Shapeless := by
  unfold signatureOf at h
  split at h
  · next hrefused =>
    cases h
    exact shapeless_refused hrefused
  · repeat' split at h
    all_goals
      cases h
      try exact Fault.shapeless rfl

theorem shapeless_externalName {rules : DispatchRules} {override : Option String} {native : String}
    {f : Fault} (h : f ∈ (externalName rules override native).2) : f.Shapeless := by
  unfold externalName at h
  repeat' split at h
  all_goals simp at h
  rw [h]
  exact Fault.shapeless rfl

theorem shapeless_nameFaults {name : String} {f : Fault} (h : f ∈ nameFaults name) :
    f.Shapeless := by
  unfold nameFaults at h
  repeat' split at h
  all_goals simp at h
  all_goals
    rw [h]
    exact Fault.shapeless rfl

theorem Dispatch.shapeless_textsOf (kind : Dispatch) (s : Summary) (d : Decl)
    (params : List PlannedParam) : Shapeless (textsOf kind.rules s d params).findings := by
  unfold textsOf
  refine ((Shapeless.append (fun f hf => ?_) fun f hf => ?_).append fun f hf => ?_).append
    fun f hf => ?_
  · obtain ⟨fault, hfault, rfl⟩ := List.mem_map.1 hf
    exact shapeless_externalName hfault
  · obtain ⟨fault, hfault, rfl⟩ := List.mem_map.1 hf
    exact shapeless_nameFaults hfault
  · split at hf
    · cases hf
    · split at hf
      · cases hf
      · next hsignature =>
        rw [List.mem_singleton.1 hf]
        exact shapeless_signatureOf hsignature
  · rw [List.mem_singleton.1 (List.mem_ite_nil_right.1 hf).2]
    exact Fault.shapeless rfl

end NativeBinding
