import NativeBinding.Proofs.Binding.Accepted
import NativeBinding.Proofs.Binding.Classification
import NativeBinding.Proofs.Binding.MarkTable
import NativeBinding.Proofs.Decl.Source

/-!
The items of `args` lists in an accepted plan. Each names a parameter that the runtime passes, no
two the same, and the parameter has the role and the default of its item. The other parameters are
positional without a default.
-/

namespace NativeBinding

def FnDecl.PlainNames (d : FnDecl) : Prop :=
  ∀ named ∈ namedParams d.params, unraw (unraw named.1) = unraw named.1

namespace FnDecl

variable {types : List String} {d : FnDecl}

theorem namedParams_rest_subset (d : FnDecl) : namedParams d.rest ⊆ namedParams d.params := by
  rw [rest]
  split
  · exact ((List.tail_sublist d.params).filterMap _).subset
  · exact List.Subset.refl _

theorem find?_planned (h : d.Accepted types) (hnames : d.PlainNames) {p : PlannedParam}
    (hp : p ∈ d.planned types) {m : ArgMark} :
    d.marking.1.find? p.name = some m ↔ m ∈ d.summary.marks ∧ unraw m.name = p.name := by
  obtain ⟨named, hnamed, rfl⟩ := List.mem_map.1 hp
  have hname : unraw (unraw named.1) = unraw named.1 :=
    hnames named (d.namedParams_rest_subset hnamed)
  have hbuild : MarkTable.build d.summary.marks _ _ = (d.marking.1, []) := Prod.ext rfl h.marking
  rw [MarkTable.find?_build_iff hbuild]
  exact and_congr_right fun _ => by rw [planParam, hname]

theorem isContext_of_marked (h : d.Accepted types) (hnames : d.PlainNames) {p : PlannedParam}
    (hp : p ∈ d.planned types) {m : ArgMark} (hm : m ∈ d.summary.marks)
    (hname : unraw m.name = p.name) : p.isContext = false := by
  by_contra hcontext
  have hfound : d.marking.1.contains p.name := by
    rw [MarkTable.contains, (find?_planned h hnames hp).2 ⟨hm, hname⟩]
    rfl
  have hmem : p ∈ (d.planned types).filter fun p => p.isContext && d.marking.1.contains p.name := by
    simp_all
  have := h.context
  rw [contextFindings, List.map_eq_nil_iff] at this
  rw [this] at hmem
  cases hmem

theorem role_planned {p : PlannedParam} (hp : p ∈ d.planned types) :
    p.role = (if p.isContext then .positional else d.marking.1.roleOf p.name) ∧
      p.default? = if p.isContext then none else d.marking.1.defaultOf p.name := by
  obtain ⟨named, -, rfl⟩ := List.mem_map.1 hp
  exact ⟨rfl, rfl⟩

theorem planned_of_marked (h : d.Accepted types) (hnames : d.PlainNames) {p : PlannedParam}
    (hp : p ∈ d.planned types) {m : ArgMark} (hm : m ∈ d.summary.marks)
    (hname : unraw m.name = p.name) : p.role = m.role ∧ p.default? = m.default? := by
  have hcontext := isContext_of_marked h hnames hp hm hname
  have hfind := (find?_planned h hnames hp).2 ⟨hm, hname⟩
  obtain ⟨hrole, hdefault⟩ := role_planned hp
  rw [hrole, hdefault, hcontext, MarkTable.roleOf, MarkTable.defaultOf, hfind]
  exact ⟨rfl, rfl⟩

theorem planned_of_unmarked (h : d.Accepted types) (hnames : d.PlainNames) {p : PlannedParam}
    (hp : p ∈ d.planned types)
    (hunmarked : p.isContext ∨ ∀ m ∈ d.summary.marks, unraw m.name ≠ p.name) :
    p.role = .positional ∧ p.default? = none := by
  obtain ⟨hrole, hdefault⟩ := role_planned hp
  rw [hrole, hdefault]
  split
  · exact ⟨rfl, rfl⟩
  · next hcontext =>
    have hnone : d.marking.1.find? p.name = none := by
      refine Option.eq_none_iff_forall_ne_some.2 fun m hm => ?_
      obtain ⟨hmem, hname⟩ := (find?_planned h hnames hp).1 hm
      exact (hunmarked.resolve_left hcontext) m hmem hname
    rw [MarkTable.roleOf, MarkTable.defaultOf, hnone]
    exact ⟨rfl, rfl⟩

theorem exists_planned_of_marked (h : d.Accepted types) {m : ArgMark} (hm : m ∈ d.summary.marks) :
    ∃ p ∈ d.planned types, p.name = unraw m.name := by
  obtain ⟨hknown, -⟩ := MarkTable.build_findings_eq_nil_iff.1 h.marking
  obtain ⟨name, hname, heq⟩ := List.mem_map.1 (hknown m hm)
  obtain ⟨named, hnamed, rfl⟩ := List.mem_map.1 hname
  exact ⟨planParam types d.marking.1 named, List.mem_map_of_mem hnamed, heq⟩

theorem mem_itemNames_iff (h : d.Accepted types) {name : String} :
    name ∈ (itemNames d.attrs).map unraw ↔ ∃ m ∈ d.summary.marks, unraw m.name = name := by
  rw [← Summary.marks_map_name h.summary, List.map_map]
  exact List.mem_map

end FnDecl

theorem mem_namedParams {params : List Param} {named : String × TypedParam}
    (h : named ∈ namedParams params) :
    .typed named.2 ∈ params ∧ ∃ mutable, named.2.pattern = .name named.1 mutable := by
  obtain ⟨p, hp, hnamed⟩ := List.mem_filterMap.1 h
  cases p with
  | self p => cases hnamed
  | typed p =>
    obtain ⟨name, hname, rfl⟩ := Option.map_eq_some_iff.1 hnamed
    refine ⟨hp, ?_⟩
    rw [TypedParam.name?] at hname
    split at hname
    · next mutable hpattern =>
      cases hname
      exact ⟨mutable, hpattern⟩
    · cases hname

theorem SourceFile.plainNames_of_parse {text : String} {file : Option String} {f : SourceFile}
    (h : SourceFile.parse text file = .ok f) {d : FnDecl} (hd : .fn d ∈ f.declarations) :
    d.PlainNames := by
  intro named hnamed
  obtain ⟨hp, mutable, hpattern⟩ := mem_namedParams hnamed
  exact unraw_unraw ((FnDecl.isIdent_of_parse h hd).2 hp hpattern)

/-- What a plan owes to the items of `args` lists. -/
structure HonoursItems (attrs : List Attribute) (plan : CallPlan) : Prop where
  /-- An item that is no separator names a parameter that the runtime passes, and all parameters of
  that name have the role that the item denotes in its list and the default that it holds. -/
  named : ∀ a ∈ attrs, ∀ before item after, a.argItems = before ++ item :: after →
    item.isSeparator = false → ∃ name, item.param? = some name ∧
      (∃ p ∈ plan.params, p.name = unraw name) ∧
      ∀ p ∈ plan.nativeParams, p.name = unraw name →
        p.isContext = false ∧ p.role = item.roleAfter before ∧ p.default? = item.default?
  nodup : ((itemNames attrs).map unraw).Nodup
  /-- Context handles and parameters that no item names are positional without a default. -/
  unnamed : ∀ p ∈ plan.nativeParams, p.isContext ∨ p.name ∉ (itemNames attrs).map unraw →
    p.role = .positional ∧ p.default? = none

theorem SourceFile.honoursItems {text : String} {file : Option String} {f : SourceFile}
    (hparse : SourceFile.parse text file = .ok f) {d : FnDecl} (hd : .fn d ∈ f.declarations)
    {types : List String} {plan : CallPlan} (h : d.verdict types = .accepted plan) :
    HonoursItems d.attrs plan := by
  obtain ⟨haccepted, rfl⟩ := FnDecl.verdict_eq_accepted_iff.1 h
  have hnames := plainNames_of_parse hparse hd
  constructor
  case named =>
    intro a ha before item after hsplit hsep
    have hfault := Summary.no_fault_of_ofAttributes haccepted.summary ha
    rw [hsplit] at hfault
    obtain ⟨m, hm, hname, hrole, hdefault⟩ := ArgsState.exists_mark_of_split hfault hsep
    have hmarks : m ∈ d.summary.marks := by
      rw [FnDecl.summary, Summary.marks_eq]
      exact List.mem_flatMap.2 ⟨a, ha, List.mem_filterMap.2 ⟨_, hsplit ▸ hm, rfl⟩⟩
    have hall : ∀ p ∈ d.planned types, p.name = unraw m.name →
        p.isContext = false ∧ p.role = item.roleAfter before ∧ p.default? = item.default? := by
      intro p hp hpname
      obtain ⟨hprole, hpdefault⟩ := FnDecl.planned_of_marked haccepted hnames hp hmarks hpname.symm
      refine ⟨FnDecl.isContext_of_marked haccepted hnames hp hmarks hpname.symm, ?_, ?_⟩
      · rw [hprole, hrole]
        rfl
      · rw [hpdefault, hdefault]
    obtain ⟨p, hp, hpname⟩ := FnDecl.exists_planned_of_marked haccepted hmarks
    refine ⟨m.name, hname, ⟨p, List.mem_filter.2 ⟨hp, ?_⟩, hpname⟩, hall⟩
    simp [(hall p hp hpname).1]
  case nodup =>
    obtain ⟨-, hnodup⟩ := MarkTable.build_findings_eq_nil_iff.1 haccepted.marking
    rw [← Summary.marks_map_name haccepted.summary, List.map_map]
    exact hnodup
  case unnamed =>
    intro p hp hunnamed
    refine FnDecl.planned_of_unmarked haccepted hnames hp
      (hunnamed.imp_right fun hname m hm heq => ?_)
    exact hname ((FnDecl.mem_itemNames_iff haccepted).2 ⟨m, hm, heq⟩)

def PlannedParam.passing (p : PlannedParam) : String × Role × Option String :=
  (p.name, p.role, p.default?)

theorem SourceFile.honoursItems_of_two_lists : ∃ f d plan,
    SourceFile.parse ("#[args(r#a, \"*\", b = \"1\")] #[args(k = \"**\")] " ++
      "fn f(&self, a: T, py: Python, r#b: T, k: T);") = .ok f ∧ .fn d ∈ f.declarations ∧
    d.verdict defaultContextTypes = .accepted plan ∧ HonoursItems d.attrs plan ∧
    plan.nativeParams.map PlannedParam.passing =
      [("a", .positional, none), ("py", .positional, none), ("b", .keywordOnly, some "1"),
        ("k", .variadicKeyword, none)] := by
  have hpassing : (acceptedFn? ("#[args(r#a, \"*\", b = \"1\")] #[args(k = \"**\")] " ++
      "fn f(&self, a: T, py: Python, r#b: T, k: T);")).map
        (fun found => found.2.nativeParams.map PlannedParam.passing) =
      some [("a", .positional, none), ("py", .positional, none), ("b", .keywordOnly, some "1"),
        ("k", .variadicKeyword, none)] := by decide +kernel
  obtain ⟨⟨d, plan⟩, hfound, hplan⟩ := Option.map_eq_some_iff.1 hpassing
  obtain ⟨f, hf, hd, h⟩ := exists_of_acceptedFn? hfound
  exact ⟨f, d, plan, hf, hd, h, SourceFile.honoursItems hf hd h, hplan⟩

end NativeBinding
