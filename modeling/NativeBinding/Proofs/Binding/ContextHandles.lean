import NativeBinding.Proofs.Binding.Parameters
import NativeBinding.Proofs.Binding.ItemRoles
import NativeBinding.Proofs.Grammar.Words

/-!
Context handles and the calling convention. A handle that no `args` item names can stand anywhere
behind the first parameter: the verdict, its findings and everything in a plan but the list of
native parameters are what they are without it.
-/

namespace NativeBinding

namespace MarkTable

variable {known known' : List String} {receiver : Option String} {t : MarkTable} {ms : List ArgMark}

theorem add_congr {m : ArgMark} (h : unraw m.name ∈ known ↔ unraw m.name ∈ known') :
    t.add known receiver m = t.add known' receiver m := by
  have hcontains : known.contains (unraw m.name) = known'.contains (unraw m.name) := by
    rw [Bool.eq_iff_iff, List.contains_iff_mem, List.contains_iff_mem, h]
  rw [add, add, hcontains]

theorem addAll_congr (h : ∀ m ∈ ms, (unraw m.name ∈ known ↔ unraw m.name ∈ known')) :
    t.addAll known receiver ms = t.addAll known' receiver ms := by
  induction ms generalizing t with
  | nil => rfl
  | cons m ms ih =>
    rw [List.forall_mem_cons] at h
    simp only [addAll, add_congr h.1, ih h.2]

theorem lookup_add {m : ArgMark} {key : String} (h : unraw m.name ≠ key) :
    (t.add known receiver m).1.entries.lookup key = t.entries.lookup key := by
  rw [add]
  split
  · rfl
  · split
    · rfl
    · simp [lookup_append_single, Ne.symm h]

theorem lookup_addAll {key : String} (h : ∀ m ∈ ms, unraw m.name ≠ key) :
    (t.addAll known receiver ms).1.entries.lookup key = t.entries.lookup key := by
  induction ms generalizing t with
  | nil => rfl
  | cons m ms ih =>
    rw [List.forall_mem_cons] at h
    rw [addAll]
    exact (ih h.2).trans (lookup_add h.1)

end MarkTable

theorem Summary.name_mem_itemNames {attrs : List Attribute} {m : ArgMark}
    (hm : m ∈ (Summary.ofAttributes attrs).marks) : m.name ∈ itemNames attrs := by
  rw [marks_eq] at hm
  obtain ⟨a, ha, hm⟩ := List.mem_flatMap.1 hm
  obtain ⟨o, ho, hmark⟩ := List.mem_filterMap.1 hm
  obtain ⟨item, hitem, s, rfl⟩ := ArgsState.mem_readAll ho
  have hmeans := s.read_means item
  generalize s.read item = o at hmark hmeans
  cases hmeans with
  | fault f => cases hmark
  | separator h => cases hmark
  | mark m' hname hrole hdefault =>
    cases hmark
    exact List.mem_flatMap.2 ⟨a, ha, List.mem_filterMap.2 ⟨item, hitem, hname⟩⟩

theorem insertIdx_length_append {α : Type} (front back : List α) (x : α) :
    (front ++ back).insertIdx front.length x = front ++ x :: back := by
  induction front with
  | nil => rfl
  | cons y front ih => simp [ih]

def FnDecl.insertParam (d : FnDecl) (k : Nat) (p : TypedParam) : FnDecl :=
  { d with params := d.params.insertIdx k (.typed p) }

def TypedParam.handle (p : TypedParam) (name : String) : PlannedParam where
  name := unraw name
  type := p.type
  role := .positional
  default? := none
  isContext := true
  isOptional := p.type.optionArg?.isSome
  span := p.span

/-- A parameter that the runtime passes itself: its pattern is the identifier `name`, its type marks
a context handle and holds no `impl`, and no item of an `args` list names it. -/
structure TypedParam.IsHandle (types : List String) (attrs : List Attribute) (p : TypedParam)
    (name : String) : Prop where
  pattern : ∃ mutable, p.pattern = .name name mutable
  ident : Grammar.IsIdent name.toList
  context : p.type.isContext types
  noImpl : p.type.findImpl? = none
  unnamed : ∀ item ∈ itemNames attrs, unraw item ≠ unraw name

namespace TypedParam.IsHandle

variable {types : List String} {attrs : List Attribute} {p : TypedParam} {name : String}

theorem name?_eq (h : p.IsHandle types attrs name) : p.name? = some name := by
  obtain ⟨mutable, hpattern⟩ := h.pattern
  rw [TypedParam.name?, hpattern]

theorem unmarked (h : p.IsHandle types attrs name) :
    ∀ m ∈ (Summary.ofAttributes attrs).marks, unraw m.name ≠ unraw name :=
  fun _ hm => h.unnamed _ (Summary.name_mem_itemNames hm)

theorem planParam_eq (h : p.IsHandle types attrs name) (table : MarkTable) :
    planParam types table (name, p) = p.handle name := by
  simp only [planParam, h.context, if_true]
  rfl

end TypedParam.IsHandle

/-- `plan'` is `plan` with a context handle at place `k` of its native parameters. -/
structure CallPlan.GainsHandle (plan : CallPlan) (k : Nat) (handle : PlannedParam)
    (plan' : CallPlan) : Prop where
  le : k ≤ plan.nativeParams.length
  eq : plan' = { plan with nativeParams := plan.nativeParams.insertIdx k handle }
  params : plan'.params = plan.params

namespace FnDecl

variable {types : List String} {d d' : FnDecl} {p : TypedParam} {name : String}

structure Extends (d : FnDecl) (front : List Param) (p : TypedParam) (back : List Param)
    (d' : FnDecl) : Prop where
  params : d.params = front ++ back
  eq : d' = { d with params := front ++ .typed p :: back }
  ne_nil : front ≠ []

theorem insertParam_extends {k : Nat} (hpos : 1 ≤ k) (hk : k ≤ d.params.length) (p : TypedParam) :
    d.Extends (d.params.take k) p (d.params.drop k) (d.insertParam k p) := by
  have hlength : (d.params.take k).length = k := List.length_take_of_le hk
  refine ⟨(List.take_append_drop k d.params).symm, ?_, ?_⟩
  · have hinsert := insertIdx_length_append (d.params.take k) (d.params.drop k) (Param.typed p)
    rw [List.take_append_drop, hlength] at hinsert
    rw [insertParam, hinsert]
  · rintro hnil
    rw [hnil, List.length_nil] at hlength
    omega

namespace Extends

variable {front back : List Param}

theorem summary (h : d.Extends front p back d') : d'.summary = d.summary := by
  rw [h.eq]
  rfl

theorem params_eq (h : d.Extends front p back d') : d'.params = front ++ .typed p :: back := by
  rw [h.eq]

theorem resolution (h : d.Extends front p back d') : d'.resolution = d.resolution := by
  obtain ⟨hparams, rfl, hne⟩ := h
  obtain ⟨first, front, rfl⟩ := List.exists_cons_of_ne_nil hne
  simp [FnDecl.resolution, Dispatch.resolve, FnDecl.summary, FnDecl.selfType?, hparams,
    strayReceivers, Param.isSelf]

theorem rest_eq (h : d.Extends front p back d') :
    d.rest = (if d.resolution.skipFirst then front.tail else front) ++ back := by
  rw [FnDecl.rest, h.params]
  split
  · exact List.tail_append_of_ne_nil h.ne_nil
  · rfl

theorem rest_extended (h : d.Extends front p back d') :
    d'.rest = (if d.resolution.skipFirst then front.tail else front) ++ .typed p :: back := by
  rw [FnDecl.rest, h.resolution, h.params_eq]
  split
  · exact List.tail_append_of_ne_nil h.ne_nil
  · rfl

theorem implArguments (h : d.Extends front p back d') (himpl : p.type.findImpl? = none) :
    implArgumentFindings d'.params = implArgumentFindings d.params := by
  simp [implArgumentFindings, h.params_eq, h.params, himpl]

theorem patterns (h : d.Extends front p back d') (hname : p.name? = some name) :
    patternFindings d'.rest = patternFindings d.rest := by
  simp [patternFindings, h.rest_eq, h.rest_extended, hname]

theorem receiverName?_eq (h : d.Extends front p back d') :
    receiverName? d.resolution.receiver d'.params =
      receiverName? d.resolution.receiver d.params := by
  obtain ⟨first, front, rfl⟩ := List.exists_cons_of_ne_nil h.ne_nil
  rw [h.params_eq, h.params]
  cases d.resolution.receiver <;> cases first <;> rfl

section

variable (hhandle : p.IsHandle types d.attrs name)
include hhandle

theorem marking (h : d.Extends front p back d') : d'.marking = d.marking := by
  rw [FnDecl.marking, FnDecl.marking, h.summary, h.resolution, h.receiverName?_eq, MarkTable.build,
    MarkTable.build]
  refine MarkTable.addAll_congr fun m hm => ?_
  have hne : unraw m.name ≠ unraw name := hhandle.unmarked m hm
  simp [namedParams, h.rest_eq, h.rest_extended, hhandle.name?_eq, hne]

theorem not_contains : d.marking.1.contains (unraw name) = false := by
  have hlookup : d.marking.1.entries.lookup (unraw name) = none :=
    MarkTable.lookup_addAll hhandle.unmarked
  rw [MarkTable.contains, MarkTable.find?, unraw_unraw hhandle.ident]
  exact congrArg Option.isSome hlookup

theorem planned (h : d.Extends front p back d') : ∃ before after,
    before = (namedParams (if d.resolution.skipFirst then front.tail else front)).map
      (planParam types d.marking.1) ∧
    d.planned types = before ++ after ∧ d'.planned types = before ++ p.handle name :: after := by
  refine ⟨_, (namedParams back).map (planParam types d.marking.1), rfl, ?_, ?_⟩
  · simp [FnDecl.planned, h.rest_eq, namedParams]
  · rw [FnDecl.planned, h.marking hhandle, h.rest_extended]
    simp [namedParams, hhandle.name?_eq, hhandle.planParam_eq]

theorem passed (h : d.Extends front p back d') : d'.passed types = d.passed types := by
  obtain ⟨before, after, -, hplanned, hplanned'⟩ := h.planned hhandle
  simp [FnDecl.passed, hplanned, hplanned', TypedParam.handle]

theorem context (h : d.Extends front p back d') :
    contextFindings d'.marking.1 (d'.planned types) =
      contextFindings d.marking.1 (d.planned types) := by
  obtain ⟨before, after, -, hplanned, hplanned'⟩ := h.planned hhandle
  have hfree : d.marking.1.contains (p.handle name).name = false := not_contains hhandle
  rw [h.marking hhandle]
  simp [contextFindings, hplanned, hplanned', hfree]

theorem texts (h : d.Extends front p back d') : d'.texts types = d.texts types := by
  rw [FnDecl.texts, FnDecl.texts, h.passed hhandle, h.eq]
  rfl

end

theorem surplus (h : d.Extends front p back d') (hkind : d.summary.dispatch ≠ .classAttribute) :
    d'.surplusFindings = d.surplusFindings := by
  have htakes : d.summary.dispatch.rules.takesParams := by
    cases hdispatch : d.summary.dispatch with
    | classAttribute => exact absurd hdispatch hkind
    | _ => rfl
  rw [FnDecl.surplusFindings, FnDecl.surplusFindings, h.summary, if_pos htakes, if_pos htakes]

theorem verdict_eq (hhandle : p.IsHandle types d.attrs name) (h : d.Extends front p back d')
    (hkind : d.summary.dispatch ≠ .classAttribute) :
    ∃ fs, d.verdict types = .of (d.plan types) fs ∧ d'.verdict types = .of (d'.plan types) fs := by
  refine ⟨_, FnDecl.verdict_eq types d, ?_⟩
  have hasync : d'.asyncFindings = d.asyncFindings := by rw [h.eq]; rfl
  have hgenerics : d'.generics = d.generics := by rw [h.eq]
  have hblock : d'.block = d.block := by rw [h.eq]
  have hresult : d'.result = d.result := by rw [h.eq]
  rw [FnDecl.verdict_eq, h.summary, hasync, hgenerics, hblock, hresult,
    h.implArguments hhandle.noImpl, h.resolution, h.surplus hkind, h.patterns hhandle.name?_eq,
    h.context hhandle, h.passed hhandle, h.texts hhandle, h.marking hhandle]

theorem plan_eq (hhandle : p.IsHandle types d.attrs name) (h : d.Extends front p back d') :
    d'.plan types = { d.plan types with nativeParams := d'.planned types } := by
  have hname : d'.name = d.name := by rw [h.eq]
  have hresult : d'.result = d.result := by rw [h.eq]
  have hspan : d'.span = d.span := by rw [h.eq]
  rw [FnDecl.plan, FnDecl.plan, h.summary, h.resolution, hname, h.texts hhandle, hresult, hspan]

theorem length_planned (haccepted : d.Accepted types) (h : d.Extends front p back d')
    (table : MarkTable) :
    ((namedParams (if d.resolution.skipFirst then front.tail else front)).map
      (planParam types table)).length =
      if d.summary.dispatch.usesFirst then front.length - 1 else front.length := by
  have hself := FnDecl.not_isSelf_of_rest haccepted
  have hpatterns := haccepted.patterns
  have hskip := (FnDecl.resolution_uses haccepted).skipFirst_eq
  rw [h.rest_eq] at hself hpatterns
  rw [patternFindings, List.filterMap_append, List.append_eq_nil_iff] at hpatterns
  have hall := forall₂_planParam (fun q hq => hself q (List.mem_append_left _ hq)) hpatterns.1
    types table
  rw [← hall.length_eq, hskip]
  split
  · exact List.length_tail
  · rfl

theorem gainsHandle (hhandle : p.IsHandle types d.attrs name) (haccepted : d.Accepted types)
    (h : d.Extends front p back d') :
    (d.plan types).GainsHandle
      (if d.summary.dispatch.usesFirst then front.length - 1 else front.length) (p.handle name)
      (d'.plan types) := by
  obtain ⟨before, after, hbefore, hplanned, hplanned'⟩ := h.planned hhandle
  rw [← h.length_planned haccepted d.marking.1, ← hbefore]
  constructor
  case le =>
    change before.length ≤ (d.planned types).length
    rw [hplanned, List.length_append]
    exact Nat.le_add_right _ _
  case eq =>
    change _ = { d.plan types with
      nativeParams := (d.planned types).insertIdx before.length (p.handle name) }
    rw [h.plan_eq hhandle, hplanned', hplanned, insertIdx_length_append]
  case params => exact h.passed hhandle

end Extends

end FnDecl

/-- A context handle behind the first parameter shows in the native parameters of a plan only. -/
theorem FnDecl.verdict_insertParam {types : List String} {d : FnDecl} {k : Nat} {p : TypedParam}
    {name : String} (hkind : d.summary.dispatch ≠ .classAttribute) (hpos : 1 ≤ k)
    (hk : k ≤ d.params.length) (hhandle : p.IsHandle types d.attrs name) :
    (∀ fs, d.verdict types = .rejected fs → (d.insertParam k p).verdict types = .rejected fs) ∧
      ∀ plan, d.verdict types = .accepted plan → ∃ plan',
        (d.insertParam k p).verdict types = .accepted plan' ∧
          plan.GainsHandle (if plan.dispatch.usesFirst then k - 1 else k) (p.handle name)
            plan' := by
  have h := insertParam_extends hpos hk p
  have hlength : (d.params.take k).length = k := List.length_take_of_le hk
  obtain ⟨fs, hverdict, hverdict'⟩ := h.verdict_eq hhandle hkind
  rw [hverdict, hverdict']
  constructor
  · intro gs hgs
    cases fs with
    | nil => cases hgs
    | cons f fs =>
      cases hgs
      rfl
  · intro plan hplan
    rw [hplan] at hverdict
    obtain ⟨haccepted, rfl⟩ := verdict_eq_accepted_iff.1 hverdict
    obtain ⟨rfl, -⟩ := Verdict.of_eq_accepted_iff.1 hplan
    have hgains := h.gainsHandle hhandle haccepted
    rw [hlength] at hgains
    exact ⟨_, rfl, hgains⟩

theorem FnDecl.verdict_insertParam_between : ∃ f d plan plan' p,
    SourceFile.parse ("#[args(a, \"*\", b = \"1\")] #[text_signature] " ++
      "fn f(slf: Ref<Self>, a: T, b: T);") = .ok f ∧ .fn d ∈ f.declarations ∧
    (d.summary.dispatch ≠ .classAttribute ∧ 1 ≤ 2 ∧ 2 ≤ d.params.length ∧
      TypedParam.IsHandle defaultContextTypes d.attrs p "r#py") ∧
    d.verdict defaultContextTypes = .accepted plan ∧
    (d.insertParam 2 p).verdict defaultContextTypes = .accepted plan' ∧
    plan.GainsHandle 1 (p.handle "r#py") plan' := by
  let p : TypedParam :=
    ⟨.name "r#py" false, .ref none false (.path ["rt", "Python"] [] [] {}) {}, [], {}⟩
  have hfacts : (acceptedFn? ("#[args(a, \"*\", b = \"1\")] #[text_signature] " ++
      "fn f(slf: Ref<Self>, a: T, b: T);")).map
        (fun found => (found.2.dispatch, found.1.params.length, itemNames found.1.attrs)) =
      some (.plain, 3, ["a", "b"]) := by decide +kernel
  obtain ⟨⟨d, plan⟩, hfound, hplan⟩ := Option.map_eq_some_iff.1 hfacts
  obtain ⟨hdispatch, hlength, hitems⟩ : plan.dispatch = .plain ∧ d.params.length = 3 ∧
      itemNames d.attrs = ["a", "b"] := by simpa using hplan
  obtain ⟨f, hf, hd, h⟩ := exists_of_acceptedFn? hfound
  have hkind : d.summary.dispatch ≠ .classAttribute := by
    have hsame : plan.dispatch = d.summary.dispatch := by
      rw [(verdict_eq_accepted_iff.1 h).2]
      rfl
    rw [← hsame, hdispatch]
    decide
  have hhandle : p.IsHandle defaultContextTypes d.attrs "r#py" := by
    constructor
    case pattern => exact ⟨false, rfl⟩
    case ident =>
      have hrest : ['y'].all Grammar.isIdentRest := by decide
      exact Or.inr ⟨"py".toList, rfl, 'p', ['y'], rfl, by decide, List.all_eq_true.1 hrest⟩
    case context => decide +kernel
    case noImpl => decide +kernel
    case unnamed =>
      rw [hitems]
      decide +kernel
  have hk : 2 ≤ d.params.length := by omega
  obtain ⟨plan', hverdict, hgains⟩ :=
    (FnDecl.verdict_insertParam hkind (by decide : 1 ≤ 2) hk hhandle).2 plan h
  rw [hdispatch] at hgains
  exact ⟨f, d, plan, plan', p, hf, hd, ⟨hkind, by decide, hk, hhandle⟩, h, hverdict, hgains⟩

end NativeBinding
