import Mathlib.Data.List.Forall2
import NativeBinding.Decl.Parse
import NativeBinding.Proofs.Binding.Accepted

/-!
Receiver and parameters of an accepted plan. A plan has every declared parameter in order, except
for the first one where the kind binds it to the receiver or the class object. Each stage that drops
a parameter otherwise has a finding for it.
-/

namespace NativeBinding

namespace Dispatch

def bindsObject : Dispatch → Bool
  | plain | callOperator | getter | setter => true
  | constructor | classMethod | staticMethod | classAttribute => false

def usesFirst (kind : Dispatch) : Bool :=
  kind.bindsObject || kind == .classMethod

/-- How the first parameter is used up if nothing is found. -/
inductive Uses (kind : Dispatch) (selfType : Option String) : Option Param → Receiver → Bool → Prop
  | object (p : Param) (hkind : kind.bindsObject) (hshaped : p.isReceiverShaped selfType) :
      Uses kind selfType (some p) (.ofParam p) true
  | classObject (p : TypedParam) (hkind : kind = .classMethod) :
      Uses kind selfType (some (.typed p)) .none true
  | nothing (first : Option Param) (hkind : kind.usesFirst = false)
      (hself : first.all fun p => !p.isSelf) : Uses kind selfType first .none false

variable {kind : Dispatch} {params : List Param} {span : Option Span} {selfType : Option String}

theorem uses_of_required {missing : String} (hrules : kind.rules.receiver = .required missing)
    (hkind : kind.bindsObject) (h : (kind.resolve params span selfType).findings = []) :
    kind.Uses selfType params.head? (kind.resolve params span selfType).receiver
      (kind.resolve params span selfType).skipFirst := by
  rw [resolve, hrules] at h ⊢
  cases hfirst : params.head? with
  | none => simp [hfirst, Resolution.ofFirst] at h
  | some p =>
    simp only [hfirst, Resolution.ofFirst] at h ⊢
    split at h
    · next hshaped =>
      rw [if_pos hshaped]
      exact .object p hkind hshaped
    · simp at h

theorem uses_of_classObject {missing : String}
    (hrules : kind.rules.receiver = .classObject missing) (hkind : kind = .classMethod)
    (h : (kind.resolve params span selfType).findings = []) :
    kind.Uses selfType params.head? (kind.resolve params span selfType).receiver
      (kind.resolve params span selfType).skipFirst := by
  rw [resolve, hrules] at h ⊢
  cases hfirst : params.head? with
  | none => simp [hfirst, Resolution.ofFirst] at h
  | some p =>
    cases p with
    | self p => simp [hfirst, Resolution.ofFirst] at h
    | typed p => exact .classObject p hkind

theorem uses_of_forbidden (hrules : kind.rules.receiver = .forbidden)
    (hkind : kind.usesFirst = false) (h : (kind.resolve params span selfType).findings = []) :
    kind.Uses selfType params.head? (kind.resolve params span selfType).receiver
      (kind.resolve params span selfType).skipFirst := by
  rw [resolve, hrules] at h ⊢
  cases hfirst : params.head? with
  | none => exact .nothing none hkind rfl
  | some p =>
    cases p with
    | self p => simp [hfirst, Resolution.ofFirst] at h
    | typed p => exact .nothing _ hkind rfl

theorem resolve_uses (h : (kind.resolve params span selfType).findings = []) :
    kind.Uses selfType params.head? (kind.resolve params span selfType).receiver
      (kind.resolve params span selfType).skipFirst := by
  cases kind with
  | plain | callOperator | getter | setter => exact uses_of_required rfl rfl h
  | classMethod => exact uses_of_classObject rfl rfl h
  | constructor | staticMethod | classAttribute => exact uses_of_forbidden rfl rfl h

theorem not_isSelf_of_tail (h : (kind.resolve params span selfType).findings = []) :
    ∀ p ∈ params.tail, p.isSelf = false := by
  intro p hp
  by_contra hself
  have hnil : strayReceivers params = [] := (List.append_eq_nil_iff.1 h).1
  rw [strayReceivers, List.map_eq_nil_iff, List.filter_eq_nil_iff] at hnil
  exact hnil p hp (by simpa using hself)

namespace Uses

variable {first : Option Param} {receiver : Receiver} {skipFirst : Bool}

theorem skipFirst_eq (h : kind.Uses selfType first receiver skipFirst) :
    skipFirst = kind.usesFirst := by
  cases h with
  | object p hkind _ => rw [usesFirst, hkind, Bool.true_or]
  | classObject p hkind =>
    rw [hkind]
    rfl
  | nothing _ hkind _ => exact hkind.symm

theorem isSome_first (h : kind.Uses selfType first receiver skipFirst) (hkind : kind.usesFirst) :
    first.isSome := by
  cases h with
  | object p _ _ | classObject p _ => rfl
  | nothing _ hunused _ => simp [hunused] at hkind

theorem present_eq (h : kind.Uses selfType first receiver skipFirst) :
    receiver.present = kind.bindsObject := by
  cases h with
  | object p hkind _ =>
    rw [hkind]
    cases p with
    | self p => cases hmut : p.mutable <;> simp [Receiver.ofParam, Receiver.present, hmut]
    | typed p => rfl
  | classObject p hkind =>
    rw [hkind]
    rfl
  | nothing _ hkind _ =>
    rw [usesFirst, Bool.or_eq_false_iff] at hkind
    rw [hkind.1]
    rfl

theorem borrowed_iff (h : kind.Uses selfType first receiver skipFirst) (mutable : Bool) :
    receiver = (if mutable then .mutablyBorrowed else .borrowed) ↔
      ∃ p, first = some (.self p) ∧ p.mutable = mutable := by
  cases h with
  | object p hkind _ =>
    cases p with
    | self p => cases hmut : p.mutable <;> cases mutable <;> simp [Receiver.ofParam, hmut]
    | typed p => cases mutable <;> simp [Receiver.ofParam]
  | classObject p hkind => cases mutable <;> simp
  | nothing _ hkind hself =>
    rcases first with _ | _ | _
    · cases mutable <;> simp
    · cases hself
    · cases mutable <;> simp

theorem converted_iff (h : kind.Uses selfType first receiver skipFirst) (span : Span) :
    receiver = .converted span ↔ kind.bindsObject ∧ ∃ p, first = some (.typed p) ∧
      p.type.mentionsSelf selfType ∧ span = p.type.span := by
  cases h with
  | object p hkind hshaped =>
    cases p with
    | self p => cases hmut : p.mutable <;> simp [Receiver.ofParam, hmut]
    | typed p =>
      have hmentions : p.type.mentionsSelf selfType = true := hshaped
      rw [Receiver.ofParam, Receiver.converted.injEq]
      simp only [hkind, true_and, Option.some.injEq, Param.typed.injEq, exists_eq_left', hmentions]
      exact eq_comm
  | classObject p hkind => simp [hkind, bindsObject]
  | nothing _ hkind _ =>
    rw [usesFirst, Bool.or_eq_false_iff] at hkind
    simp [hkind.1]

theorem not_isSelf (h : kind.Uses selfType first receiver skipFirst) (hskip : skipFirst = false)
    {p : Param} (hp : first = some p) : p.isSelf = false := by
  cases h with
  | object _ _ _ | classObject _ _ => cases hskip
  | nothing _ hkind hself => simpa [hp] using hself

end Uses

end Dispatch

/-- A planned parameter stands for a declared one: it has its name, without raw mark, and its
type. -/
def Param.StandsFor (declared : Param) (p : PlannedParam) : Prop :=
  ∃ tp name mutable, declared = .typed tp ∧ tp.pattern = .name name mutable ∧
    p.name = unraw name ∧ p.type = tp.type

theorem patternFindings_cons_eq_nil {p : Param} {params : List Param}
    (h : patternFindings (p :: params) = []) (hself : p.isSelf = false) :
    (∃ tp name mutable, p = .typed tp ∧ tp.pattern = .name name mutable ∧
        tp.name? = some name) ∧ patternFindings params = [] := by
  cases p with
  | self p => cases hself
  | typed tp =>
    rw [patternFindings, List.filterMap_cons] at h
    cases hname : tp.name? with
    | none => simp [hname] at h
    | some name =>
      have hpattern := hname
      rw [TypedParam.name?] at hpattern
      split at hpattern
      · next n mutable hp =>
        cases hpattern
        refine ⟨⟨tp, _, mutable, rfl, hp, hname⟩, ?_⟩
        simp only [hname, Option.isSome_some, if_true] at h
        exact h
      · cases hpattern

theorem forall₂_planParam {params : List Param} (hself : ∀ p ∈ params, p.isSelf = false)
    (h : patternFindings params = []) (types : List String) (table : MarkTable) :
    List.Forall₂ Param.StandsFor params ((namedParams params).map (planParam types table)) := by
  induction params with
  | nil => exact .nil
  | cons p params ih =>
    obtain ⟨⟨tp, name, mutable, rfl, hpattern, hname⟩, hrest⟩ :=
      patternFindings_cons_eq_nil h (hself p List.mem_cons_self)
    have hnamed : namedParams (.typed tp :: params) = (name, tp) :: namedParams params := by
      simp [namedParams, hname]
    rw [hnamed, List.map_cons]
    exact .cons ⟨tp, name, mutable, rfl, hpattern, rfl, rfl⟩
      (ih (fun p hp => hself p (List.mem_cons_of_mem _ hp)) hrest)

namespace FnDecl

variable {types : List String} {d : FnDecl}

theorem resolution_uses (h : d.Accepted types) : d.summary.dispatch.Uses d.selfType?
    d.params.head? d.resolution.receiver d.resolution.skipFirst :=
  Dispatch.resolve_uses h.resolution

theorem rest_eq_drop (h : d.Accepted types) :
    d.rest = d.params.drop (if d.summary.dispatch.usesFirst then 1 else 0) := by
  rw [rest, (resolution_uses h).skipFirst_eq]
  split
  · rw [List.drop_one]
  · rw [List.drop_zero]

theorem not_isSelf_of_rest (h : d.Accepted types) : ∀ p ∈ d.rest, p.isSelf = false := by
  have htail := Dispatch.not_isSelf_of_tail h.resolution
  intro p hp
  rw [rest] at hp
  split at hp
  · exact htail p hp
  · next hskip =>
    have hfirst := (resolution_uses h).not_isSelf (by simpa using hskip) (p := p)
    cases hparams : d.params with
    | nil => simp [hparams] at hp
    | cons first tail =>
      rw [hparams] at hp hfirst htail
      rcases List.mem_cons.1 hp with rfl | hp
      · exact hfirst rfl
      · exact htail p hp

end FnDecl

/-- What a plan owes to the declared parameters. -/
structure KeepsParams (types : List String) (d : FnDecl) (plan : CallPlan) : Prop where
  first : plan.dispatch.usesFirst → d.params.head?.isSome
  /-- All parameters are planned, except for the first where the kind uses it. -/
  native : List.Forall₂ Param.StandsFor
    (d.params.drop (if plan.dispatch.usesFirst then 1 else 0)) plan.nativeParams
  params : plan.params = plan.nativeParams.filter fun p => !p.type.isContext types
  context : plan.contextParams = plan.nativeParams.filter fun p => p.type.isContext types
  present : plan.receiver.present = plan.dispatch.bindsObject
  mutablyBorrowed : plan.receiver = .mutablyBorrowed ↔
    ∃ p, d.params.head? = some (.self p) ∧ p.mutable = true
  borrowed : plan.receiver = .borrowed ↔ ∃ p, d.params.head? = some (.self p) ∧ p.mutable = false
  /-- A converted receiver is declared with a type that mentions `Self` or the type of the block. -/
  converted : ∀ span, plan.receiver = .converted span ↔ plan.dispatch.bindsObject ∧
    ∃ p, d.params.head? = some (.typed p) ∧ p.type.mentionsSelf d.selfType? ∧ span = p.type.span

theorem FnDecl.keepsParams {types : List String} {d : FnDecl} {plan : CallPlan}
    (h : d.verdict types = .accepted plan) : KeepsParams types d plan := by
  obtain ⟨haccepted, rfl⟩ := verdict_eq_accepted_iff.1 h
  have huses := resolution_uses haccepted
  have hcontext : ∀ p ∈ d.planned types, p.isContext = p.type.isContext types := by
    intro p hp
    obtain ⟨named, -, rfl⟩ := List.mem_map.1 hp
    rfl
  constructor
  case first => exact huses.isSome_first
  case native =>
    change List.Forall₂ _ (d.params.drop (if d.summary.dispatch.usesFirst then 1 else 0)) _
    rw [← rest_eq_drop haccepted]
    exact forall₂_planParam (not_isSelf_of_rest haccepted) haccepted.patterns _ _
  case params => exact List.filter_congr fun p hp => by rw [hcontext p hp]
  case context => exact List.filter_congr hcontext
  case present => exact huses.present_eq
  case mutablyBorrowed => exact huses.borrowed_iff true
  case borrowed => exact huses.borrowed_iff false
  case converted => exact huses.converted_iff

def receiverAndMention (found : FnDecl × CallPlan) : Receiver × Bool :=
  (found.2.receiver, match found.1.params.head? with
    | some (.typed p) => p.type.mentionsSelf found.1.selfType?
    | _ => false)

theorem FnDecl.keepsParams_of_converted : ∃ f d plan,
    SourceFile.parse "impl A \x7b fn f(a: Ref<A>, py: Python, r#b: T); \x7d" = .ok f ∧
      .fn d ∈ f.declarations ∧ d.verdict defaultContextTypes = .accepted plan ∧
      KeepsParams defaultContextTypes d plan ∧ plan.nativeParams.map (·.name) = ["py", "b"] := by
  have hnames : (acceptedFn? "impl A \x7b fn f(a: Ref<A>, py: Python, r#b: T); \x7d").map
      (fun found => found.2.nativeParams.map (·.name)) = some ["py", "b"] := by decide +kernel
  obtain ⟨⟨d, plan⟩, hfound, hplan⟩ := Option.map_eq_some_iff.1 hnames
  obtain ⟨f, hf, hd, h⟩ := exists_of_acceptedFn? hfound
  exact ⟨f, d, plan, hf, hd, h, FnDecl.keepsParams h, hplan⟩

/-- The first parameter of a static method is an argument, whatever its type mentions. -/
theorem FnDecl.not_converted_of_static : ∃ f d plan,
    SourceFile.parse "impl A \x7b #[staticmethod] fn f(x: Self); \x7d" = .ok f ∧
      .fn d ∈ f.declarations ∧ d.verdict defaultContextTypes = .accepted plan ∧
      ¬ ∀ span, plan.receiver = .converted span ↔ ∃ p, d.params.head? = some (.typed p) ∧
        p.type.mentionsSelf d.selfType? ∧ span = p.type.span := by
  have hreceiver : (acceptedFn? "impl A \x7b #[staticmethod] fn f(x: Self); \x7d").map
      receiverAndMention = some (.none, true) := by decide +kernel
  obtain ⟨⟨d, plan⟩, hfound, hplan⟩ := Option.map_eq_some_iff.1 hreceiver
  obtain ⟨f, hf, hd, h⟩ := exists_of_acceptedFn? hfound
  obtain ⟨hnone, hmention⟩ := Prod.mk.inj hplan
  refine ⟨f, d, plan, hf, hd, h, fun hiff => ?_⟩
  simp only at hmention
  split at hmention
  · next p hp =>
    have hconverted := (hiff p.type.span).2 ⟨p, hp, hmention, rfl⟩
    rw [hnone] at hconverted
    cases hconverted
  · cases hmention

end NativeBinding
