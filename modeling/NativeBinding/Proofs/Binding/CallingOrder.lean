import NativeBinding.Decl.Parse
import NativeBinding.Proofs.Binding.Accepted
import NativeBinding.Proofs.Binding.Classification
import NativeBinding.Proofs.Binding.MarkTable

/-!
The order of parameters in an accepted plan. The check of the declared order lets positional
parameters stand first, then variadic positional ones, then keyword-only ones and at most one
variadic keyword. It does not count the variadic positional ones: two lists of `args` can star two
parameters. A plan is in calling order exactly if at most one parameter is starred.
-/

namespace NativeBinding

def orderedRoles (a b c e : Nat) : List Role :=
  List.replicate a .positional ++ List.replicate b .variadicPositional ++
    List.replicate c .keywordOnly ++ List.replicate e .variadicKeyword

def InCallingOrder (roles : List Role) : Prop :=
  ∃ a b c e, roles = orderedRoles a b c e ∧ b ≤ 1 ∧ e ≤ 1

theorem count_orderedRoles (a b c e : Nat) :
    (orderedRoles a b c e).count .variadicPositional = b ∧
      (orderedRoles a b c e).count .variadicKeyword = e := by
  simp [orderedRoles, List.count_append, List.count_replicate]

namespace OrderState

/-- The first role that may follow: 0 for positional, up to 4 where nothing may. -/
def rank (s : OrderState) : Nat :=
  if s.kwargs.isSome then 4 else if s.keywordOnly.isSome then 2 else if s.varargs.isSome then 1
  else 0

theorem check_cons_eq_nil {s : OrderState} {p : PlannedParam} {ps : List PlannedParam}
    (h : s.check (p :: ps) = []) : s.fault? p = none ∧ (s.after p).check ps = [] := by
  simp only [check, List.append_eq_nil_iff, Option.toList_eq_nil_iff, Option.map_eq_none_iff] at h
  exact h

theorem after_of_positional {s : OrderState} {p : PlannedParam} (hr : p.role = .positional)
    (h : s.fault? p = none) : s.rank = 0 ∧ s.after p = s := by
  obtain ⟨varargs, keywordOnly, kwargs⟩ := s
  cases kwargs <;> cases varargs <;> cases keywordOnly <;> simp_all [fault?, after, rank]

theorem after_of_variadicPositional {s : OrderState} {p : PlannedParam}
    (hr : p.role = .variadicPositional) (h : s.fault? p = none) :
    s.rank ≤ 1 ∧ (s.after p).rank = 1 := by
  obtain ⟨varargs, keywordOnly, kwargs⟩ := s
  cases kwargs <;> cases varargs <;> cases keywordOnly <;> simp_all [fault?, after, rank]

theorem after_of_keywordOnly {s : OrderState} {p : PlannedParam} (hr : p.role = .keywordOnly)
    (h : s.fault? p = none) : s.rank ≤ 2 ∧ (s.after p).rank = 2 := by
  obtain ⟨varargs, keywordOnly, kwargs⟩ := s
  cases kwargs <;> cases varargs <;> cases keywordOnly <;> simp_all [fault?, after, rank]

theorem after_of_variadicKeyword {s : OrderState} {p : PlannedParam}
    (hr : p.role = .variadicKeyword) (h : s.fault? p = none) :
    s.rank ≤ 2 ∧ (s.after p).rank = 4 := by
  obtain ⟨varargs, keywordOnly, kwargs⟩ := s
  cases kwargs <;> cases varargs <;> cases keywordOnly <;> simp_all [fault?, after, rank]

/-- What may follow a state, by its rank. The roles of each part are missing once the rank has
passed them. -/
theorem roles_of_check {s : OrderState} {ps : List PlannedParam} (h : s.check ps = []) :
    ∃ a b c e, ps.map (·.role) = orderedRoles a b c e ∧ e ≤ 1 ∧ (1 ≤ s.rank → a = 0) ∧
      (2 ≤ s.rank → b = 0) ∧ (3 ≤ s.rank → c = 0 ∧ e = 0) := by
  induction ps generalizing s with
  | nil => exact ⟨0, 0, 0, 0, by simp [orderedRoles]⟩
  | cons p ps ih =>
    obtain ⟨hfault, hcheck⟩ := check_cons_eq_nil h
    obtain ⟨a, b, c, e, hroles, he, h₁, h₂, h₃⟩ := ih hcheck
    rw [List.map_cons, hroles]
    cases hr : p.role with
    | positional =>
      obtain ⟨hrank, hafter⟩ := after_of_positional hr hfault
      refine ⟨a + 1, b, c, e, by simp [orderedRoles, List.replicate_succ], he, ?_⟩
      omega
    | variadicPositional =>
      obtain ⟨hrank, hafter⟩ := after_of_variadicPositional hr hfault
      obtain rfl := h₁ (by omega)
      refine ⟨0, b + 1, c, e, by simp [orderedRoles, List.replicate_succ], he, ?_⟩
      omega
    | keywordOnly =>
      obtain ⟨hrank, hafter⟩ := after_of_keywordOnly hr hfault
      obtain rfl := h₁ (by omega)
      obtain rfl := h₂ (by omega)
      refine ⟨0, 0, c + 1, e, by simp [orderedRoles, List.replicate_succ], he, ?_⟩
      omega
    | variadicKeyword =>
      obtain ⟨hrank, hafter⟩ := after_of_variadicKeyword hr hfault
      obtain rfl := h₁ (by omega)
      obtain rfl := h₂ (by omega)
      obtain ⟨rfl, rfl⟩ := h₃ (by omega)
      refine ⟨0, 0, 0, 1, by simp [orderedRoles], Nat.le_refl 1, ?_⟩
      omega

end OrderState

theorem roles_of_checkOrder {ps : List PlannedParam} (h : checkOrder ps = []) :
    ∃ a b c e, ps.map (·.role) = orderedRoles a b c e ∧ e ≤ 1 := by
  obtain ⟨a, b, c, e, hroles, he, -⟩ := OrderState.roles_of_check h
  exact ⟨a, b, c, e, hroles, he⟩

theorem inCallingOrder_iff_count {roles : List Role} {a b c e : Nat}
    (h : roles = orderedRoles a b c e) (he : e ≤ 1) :
    InCallingOrder roles ↔ roles.count .variadicPositional ≤ 1 := by
  constructor
  · rintro ⟨a', b', c', e', rfl, hb, -⟩
    rwa [(count_orderedRoles a' b' c' e').1]
  · intro hcount
    rw [h, (count_orderedRoles a b c e).1] at hcount
    exact ⟨a, b, c, e, h, hcount, he⟩

theorem filter_eq_find?_toList_iff {α : Type} (q : α → Bool) (l : List α) :
    l.filter q = (l.find? q).toList ↔ l.countP q ≤ 1 := by
  rw [← List.head?_filter, List.countP_eq_length_filter]
  match l.filter q with
  | [] | [_] => simp
  | _ :: _ :: _ => simp

theorem countP_role (ps : List PlannedParam) (r : Role) :
    ps.countP (·.role == r) = (ps.map (·.role)).count r := by
  rw [List.count, List.countP_map]
  rfl

section

variable {types : List String} {d : FnDecl} {plan : CallPlan}

theorem role_eq_roleOf (h : d.verdict types = .accepted plan) {p : PlannedParam}
    (hp : p ∈ plan.params) : p.role = d.marking.1.roleOf p.name := by
  obtain ⟨-, rfl⟩ := FnDecl.verdict_eq_accepted_iff.1 h
  obtain ⟨hplanned, hcontext⟩ := List.mem_filter.1 hp
  obtain ⟨named, -, rfl⟩ := List.mem_map.1 hplanned
  have : named.2.type.isContext types = false := by simpa [planParam] using hcontext
  simp [planParam, this]

theorem role_eq_variadicPositional_iff (h : d.verdict types = .accepted plan) {p : PlannedParam}
    (hp : p ∈ plan.params) :
    p.role = .variadicPositional ↔ ∃ name ∈ starredNames d.attrs, unraw name = unraw p.name := by
  have haccepted := (FnDecl.verdict_eq_accepted_iff.1 h).1
  have hbuild : MarkTable.build d.summary.marks _ _ = (d.marking.1, []) :=
    Prod.ext rfl haccepted.marking
  rw [role_eq_roleOf h hp, MarkTable.roleOf_build_iff hbuild _ (by decide)]
  constructor
  · rintro ⟨m, hm, hname, hr⟩
    exact ⟨m.name, (Summary.starred_mark_iff haccepted.summary _).1 ⟨m, hm, rfl, hr⟩, hname⟩
  · rintro ⟨name, hmem, hname⟩
    obtain ⟨m, hm, rfl, hr⟩ := (Summary.starred_mark_iff haccepted.summary _).2 hmem
    exact ⟨m, hm, hname, hr⟩

/-- Whether an item of an `args` list stars a parameter. -/
def FnDecl.stars (d : FnDecl) (p : PlannedParam) : Bool :=
  (starredNames d.attrs).any fun name => unraw name == unraw p.name

theorem roles_of_accepted (h : d.verdict types = .accepted plan) :
    ∃ a b c e, plan.params.map (·.role) = orderedRoles a b c e ∧ e ≤ 1 := by
  obtain ⟨haccepted, rfl⟩ := FnDecl.verdict_eq_accepted_iff.1 h
  exact roles_of_checkOrder haccepted.order

theorem countP_stars (h : d.verdict types = .accepted plan) :
    plan.params.countP d.stars = (plan.params.map (·.role)).count .variadicPositional := by
  rw [← countP_role]
  apply List.countP_congr
  intro p hp
  rw [beq_iff_eq, role_eq_variadicPositional_iff h hp]
  simp [FnDecl.stars]

/-- The parameters of an accepted function stand in the order that is checked. This is calling
order, and no variadic positional parameter is lost, exactly if at most one is starred. -/
theorem inCallingOrder_iff_stars (h : d.verdict types = .accepted plan) :
    (∃ a b c e, plan.params.map (·.role) = orderedRoles a b c e ∧ e ≤ 1) ∧
    (InCallingOrder (plan.params.map (·.role)) ↔ plan.params.countP d.stars ≤ 1) ∧
    (plan.params.filter (·.role == .variadicPositional) = plan.varargs?.toList ↔
      plan.params.countP d.stars ≤ 1) ∧
    plan.params.filter (·.role == .variadicKeyword) = plan.kwargs?.toList := by
  obtain ⟨a, b, c, e, hroles, he⟩ := roles_of_accepted h
  refine ⟨⟨a, b, c, e, hroles, he⟩, ?_, ?_, ?_⟩
  · rw [countP_stars h]
    exact inCallingOrder_iff_count hroles he
  · rw [countP_stars h, ← countP_role]
    exact filter_eq_find?_toList_iff _ _
  · apply (filter_eq_find?_toList_iff _ _).2
    rwa [countP_role, hroles, (count_orderedRoles a b c e).2]

end

def plannedRoles? (text : String) : Option (List Role) :=
  match Decl.parse text with
  | .ok (.fn d) => (d.verdict defaultContextTypes).plan?.map fun p => p.params.map (·.role)
  | _ => none

theorem exists_of_plannedRoles? {text : String} {roles : List Role}
    (h : plannedRoles? text = some roles) :
    ∃ d plan, Decl.parse text = .ok (.fn d) ∧ d.verdict defaultContextTypes = .accepted plan ∧
      plan.params.map (·.role) = roles := by
  rw [plannedRoles?] at h
  split at h
  · next d hd =>
    obtain ⟨plan, hplan, hroles⟩ := Option.map_eq_some_iff.1 h
    refine ⟨d, plan, hd, ?_, hroles⟩
    cases hv : d.verdict defaultContextTypes <;> simp_all [Verdict.plan?]
  · cases h

theorem inCallingOrder_of_one_star : ∃ d plan,
    Decl.parse "#[args(b = \"*\", c = \"1\", k = \"**\")] fn f(&self, a: T, b: T, c: T, k: T);" =
      .ok (.fn d) ∧ d.verdict defaultContextTypes = .accepted plan ∧
      InCallingOrder (plan.params.map (·.role)) := by
  have hroles : plannedRoles?
      "#[args(b = \"*\", c = \"1\", k = \"**\")] fn f(&self, a: T, b: T, c: T, k: T);" =
        some (orderedRoles 1 1 1 1) := by decide +kernel
  obtain ⟨d, plan, hd, h, hroles⟩ := exists_of_plannedRoles? hroles
  refine ⟨d, plan, hd, h, (inCallingOrder_iff_stars h).2.1.2 ?_⟩
  rw [countP_stars h, hroles]
  decide

theorem not_inCallingOrder_of_two_stars : ∃ d plan,
    Decl.parse "#[args(a = \"*\")] #[args(b = \"*\")] fn f(&self, a: T, b: T);" = .ok (.fn d) ∧
      d.verdict defaultContextTypes = .accepted plan ∧
      ¬ InCallingOrder (plan.params.map (·.role)) := by
  have hroles : plannedRoles? "#[args(a = \"*\")] #[args(b = \"*\")] fn f(&self, a: T, b: T);" =
      some (orderedRoles 0 2 0 0) := by decide +kernel
  obtain ⟨d, plan, hd, h, hroles⟩ := exists_of_plannedRoles? hroles
  refine ⟨d, plan, hd, h, ?_⟩
  rw [hroles, inCallingOrder_iff_count rfl (Nat.zero_le 1)]
  decide

end NativeBinding
