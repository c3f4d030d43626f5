import NativeBinding.Proofs.Report.Aborts
import NativeBinding.Proofs.Report.Merging
import NativeBinding.Proofs.Report.Verdicts

/-!
Accounts of runs. Every exported declaration of every source is settled in the report: by its plan,
which stands in the order of the sources, or by an error. So the exit code, which only looks at the
diagnostics, says whether everything was read, parsed and accepted.
-/

namespace NativeBinding

open CommandLine

def Source.exported (s : Source) : List Decl :=
  match s.text with
  | .error _ => []
  | .ok text =>
      match SourceFile.parse text (some s.path.text) with
      | .ok f => f.declarations.filter Decl.isExported
      | .error _ => []

/-- The failure of a source that cannot be read or parsed. -/
def Source.failure? (s : Source) : Option Diagnostic :=
  match s.text with
  | .error f => some (f.diagnostic s.path)
  | .ok text =>
      match SourceFile.parse text (some s.path.text) with
      | .error (.rejected cause span) => some (cause.diagnostic span)
      | _ => none

theorem Source.parses_of_exported {s : Source} (h : s.exported ≠ []) : s.Parses := by
  rw [exported] at h
  split at h
  · exact absurd rfl h
  · next text htext =>
    split at h
    · next f hf => exact ⟨text, f, htext, hf⟩
    · exact absurd rfl h

theorem Source.exported_of_reading {s : Source} {r : Reading} (h : s.reading = .ok r) :
    s.exported = r.decls ∧ s.failure? = r.failure? ∧ (r.failure? = none ↔ s.Parses) := by
  rw [reading] at h
  rw [exported, failure?, Parses]
  cases htext : s.text with
  | error f =>
    rw [htext] at h
    cases h
    simp [Reading.decls, Reading.failure?]
  | ok text =>
    rw [htext] at h
    dsimp only at h ⊢
    split at h <;> cases h <;> simp_all [Reading.decls, Reading.failure?]

theorem Source.exported_of_readings {sources : List Source} {rs : List Reading}
    (h : sources.mapM Source.reading = .ok rs) :
    rs.flatMap Reading.decls = sources.flatMap Source.exported ∧
      rs.filterMap Reading.failure? = sources.filterMap Source.failure? ∧
      (rs.filterMap Reading.failure? = [] ↔ ∀ s ∈ sources, s.Parses) := by
  induction sources generalizing rs with
  | nil =>
    rw [mapM_nil_eq_ok h]
    simp
  | cons s sources ih =>
    obtain ⟨r, rs, hr, hrs, rfl⟩ := mapM_cons_eq_ok h
    obtain ⟨hdecls, hfailures, hparses⟩ := ih hrs
    obtain ⟨hdecl, hfailure, hparse⟩ := exported_of_reading hr
    refine ⟨by rw [List.flatMap_cons, List.flatMap_cons, hdecls, hdecl],
      by rw [List.filterMap_cons, List.filterMap_cons, hfailures, hfailure], ?_⟩
    rw [List.forall_mem_cons, ← hparses, ← hparse]
    cases hr : r.failure? <;> simp [hr]

/-- A report settles every exported declaration of some sources. -/
structure Report.Accounts (types : List String) (sources : List Source) (r : Report) : Prop where
  plans : r.plans = (sources.flatMap Source.exported).filterMap fun d => (d.verdict types).plan?
  diagnostics : r.diagnostics.Perm (sources.filterMap Source.failure? ++
    (sources.flatMap Source.exported).flatMap fun d => (d.verdict types).diagnostics)
  settled (d : Decl) (hd : d ∈ sources.flatMap Source.exported) :
    (∃ plan, d.verdict types = .accepted plan) ∨
      ∃ x ∈ (d.verdict types).diagnostics, x.isError ∧ x ∈ r.diagnostics
  exitCode : r.exitCode = 0 ↔ (∀ s ∈ sources, s.Parses) ∧
    ∀ d ∈ sources.flatMap Source.exported, (d.verdict types).plan?.isSome

theorem Source.isError_of_failure {s : Source} {x : Diagnostic} (h : s.failure? = some x) :
    x.isError := by
  rw [failure?] at h
  split at h
  · cases h
    rfl
  · split at h <;> cases h
    rfl

theorem Verdict.isError_of_mem {v : Verdict} {x : Diagnostic} (h : x ∈ v.diagnostics) :
    x.isError := by
  obtain ⟨f, -, rfl⟩ := List.mem_map.1 h
  rfl

theorem Decl.diagnostics_eq_nil_iff (types : List String) (d : Decl) :
    (d.verdict types).diagnostics = [] ↔ (d.verdict types).plan?.isSome := by
  cases d.verdict_decided types with
  | assembled _ hplan hquiet => simp [hplan, hquiet]
  | rejected _ hplan hloud => simp [hplan, hloud]

theorem Report.exitCode_eq_zero_iff {r : Report} (h : ∀ x ∈ r.diagnostics, x.isError) :
    r.exitCode = 0 ↔ r.diagnostics = [] := by
  rw [exitCode, hasErrors]
  cases hd : r.diagnostics with
  | nil => simp
  | cons x xs =>
    rw [hd] at h
    simp [h x List.mem_cons_self]

section

variable {types : List String} {sources : List Source} {rs : List Reading}
  (h : sources.mapM Source.reading = .ok rs)
include h

theorem Report.diagnostics_perm : (ofReadings types rs).diagnostics.Perm
    (sources.filterMap Source.failure? ++
      (sources.flatMap Source.exported).flatMap fun d => (d.verdict types).diagnostics) := by
  obtain ⟨hdecls, hfailures, -⟩ := Source.exported_of_readings h
  rw [diagnostics_ofReadings, ← hdecls, ← hfailures, List.flatMap_assoc]
  exact List.mergeSort_perm _ _

theorem Report.isError_of_mem {x : Diagnostic} (hx : x ∈ (ofReadings types rs).diagnostics) :
    x.isError := by
  rcases List.mem_append.1 ((diagnostics_perm h).mem_iff.1 hx) with hx | hx
  · obtain ⟨s, -, hs⟩ := List.mem_filterMap.1 hx
    exact Source.isError_of_failure hs
  · obtain ⟨d, -, hx⟩ := List.mem_flatMap.1 hx
    exact Verdict.isError_of_mem hx

theorem Report.accounts_ofReadings : (ofReadings types rs).Accounts types sources := by
  obtain ⟨hdecls, hfailures, hparses⟩ := Source.exported_of_readings h
  have hperm : (ofReadings types rs).diagnostics.Perm _ := diagnostics_perm h
  constructor
  case plans =>
    simp only [Report.plans, ofReadings, ofArrivals, hdecls, List.filterMap_map]
    rfl
  case diagnostics => exact hperm
  case settled =>
    intro d hd
    cases hv : d.verdict types with
    | accepted plan => exact Or.inl ⟨plan, rfl⟩
    | rejected fs =>
      right
      have hloud : (d.verdict types).diagnostics ≠ [] := by
        rw [ne_eq, d.diagnostics_eq_nil_iff, hv]
        simp [Verdict.plan?]
      obtain ⟨x, hx⟩ := List.exists_mem_of_ne_nil _ hloud
      refine ⟨x, hv ▸ hx, Verdict.isError_of_mem hx, hperm.mem_iff.2 ?_⟩
      exact List.mem_append_right _ (List.mem_flatMap.2 ⟨d, hd, hx⟩)
  case exitCode =>
    rw [exitCode_eq_zero_iff fun x => isError_of_mem h, ← List.length_eq_zero_iff, hperm.length_eq,
      List.length_eq_zero_iff, List.append_eq_nil_iff, ← hfailures, hparses,
      List.flatMap_eq_nil_iff]
    simp only [Decl.diagnostics_eq_nil_iff]

end

namespace Options

/-- The run shows a report in either form: the plans are the same in both. -/
structure Gives (w : Surroundings) (o : Options) (r : Report) : Prop where
  json : ∃ trace, run w { o with json := true } = .ok
    ⟨r.exitCode,
     [(Json.obj
        [("exit_code", .int r.exitCode),
         ("specs", .arr (r.plans.map CallPlan.toJson)),
         ("diagnostics", .arr (r.diagnostics.map Diagnostic.toJson))]).render],
     trace⟩
  lines : ∃ trace, run w { o with json := false } = .ok
    ⟨r.exitCode, r.plans.map CallPlan.summary, trace ++ r.remarks⟩

variable {w : Surroundings} {o : Options}

theorem gives_of_report {r : Report} (h : o.report w = .ok r) : o.Gives w r := by
  constructor
  case json =>
    obtain ⟨trace, hrun⟩ := run_eq w { o with json := true }
    have hreport : report w { o with json := true } = .ok r := h
    rw [hrun, hreport]
    exact ⟨_, rfl⟩
  case lines =>
    obtain ⟨trace, hrun⟩ := run_eq w { o with json := false }
    have hreport : report w { o with json := false } = .ok r := h
    rw [hrun, hreport]
    exact ⟨_, rfl⟩

/-- The outcome of a run accounts for all that it is given. -/
structure Accounted (w : Surroundings) (o : Options) : Prop where
  aborts (c : Config) (hc : o.Uses w c) :
    (∃ e, o.run w = .error e) ↔ ∃ p ∈ o.sources, (w.source p).Oversized
  accounts (c : Config) (hc : o.Uses w c) (hsize : ∀ p ∈ o.sources, ¬ (w.source p).Oversized) :
    ∃ r, o.Gives w r ∧ r.Accounts c.contextTypes (o.sources.map w.source)
  refuses (f : ConfigFault) (hf : o.Refuses w f) :
    ∃ r d, o.Gives w r ∧ r.exitCode = 1 ∧ r.plans = [] ∧ r.diagnostics = [d] ∧
      d.isError ∧ d.kind = some .configError

theorem accounted (w : Surroundings) (o : Options) : o.Accounted w := by
  constructor
  case aborts =>
    intro c hc
    rw [run_eq_error_iff]
    exact hc.report_eq_error_iff
  case accounts =>
    intro c hc hsize
    cases hreport : o.report w with
    | error e =>
      obtain ⟨p, hp, hover⟩ := hc.report_eq_error_iff.1 ⟨e, hreport⟩
      exact absurd hover (hsize p hp)
    | ok r =>
      obtain ⟨readings, hreadings, rfl⟩ := hc.report_eq_ok_iff.1 hreport
      refine ⟨_, gives_of_report hreport, Report.accounts_ofReadings ?_⟩
      rw [List.mapM_map]
      exact hreadings
  case refuses =>
    intro f hf
    obtain ⟨path, hreport⟩ := hf.report_eq
    exact ⟨_, _, gives_of_report (hreport o.sources), rfl, rfl, rfl, rfl, rfl⟩

def mixedDirectory : Surroundings where
  location := .ofString "/"
  read path :=
    if path = .ofString "a" then
      .ok (ascii "#[staticmethod] fn g(); fn h(); const A: T = 1;")
    else .error .missing

theorem accounted_of_mixed :
    (∃ o c, Options.ofArgs ["a", "c"] = .ok o ∧ o.Uses mixedDirectory c ∧
      (∀ p ∈ o.sources, ¬ (mixedDirectory.source p).Oversized) ∧
      ∃ r, o.Gives mixedDirectory r ∧
        r.Accounts c.contextTypes (o.sources.map mixedDirectory.source)) ∧
    ∃ o f, Options.ofArgs ["--jobs", "0", "a"] = .ok o ∧ o.Refuses mixedDirectory f ∧
      ∃ r d, o.Gives mixedDirectory r ∧ r.exitCode = 1 ∧ r.plans = [] ∧ r.diagnostics = [d] ∧
        d.isError ∧ d.kind = some .configError := by
  have hmissing : mixedDirectory.read (.ofString configName) = .error .missing := by
    have hne : Path.ofString configName ≠ .ofString "a" := by decide +kernel
    dsimp only [mixedDirectory]
    rw [if_neg hne]
  have hsize : ∀ p ∈ [Path.ofString "a", .ofString "c"],
      ¬ (mixedDirectory.source p).Oversized := by
    have hread : ∀ p ∈ [Path.ofString "a", .ofString "c"],
        (mixedDirectory.source p).reading.toOption.isSome := by decide +kernel
    intro p hp hover
    obtain ⟨e, he⟩ := Source.reading_eq_error_iff.2 hover
    have hsome := hread p hp
    rw [he] at hsome
    cases hsome
  have hfile (o : Options) (ho : o.config = none) : configFile mixedDirectory o = .ok none := by
    rw [configFile, ho]
    dsimp only
    rw [hmissing]
  constructor
  · let o : Options := ⟨[.ofString "a", .ofString "c"], false, none, [], none, false⟩
    have hc : o.Uses mixedDirectory .standard := ⟨none, hfile o rfl, rfl⟩
    exact ⟨o, _, rfl, hc, hsize, (accounted mixedDirectory o).accounts _ hc hsize⟩
  · let o : Options := ⟨[.ofString "a"], false, none, [], some (some 0), false⟩
    have hf : o.Refuses mixedDirectory (.refused .jobs) := ⟨none, hfile o rfl, rfl⟩
    exact ⟨o, _, rfl, hf, (accounted mixedDirectory o).refuses _ hf⟩

theorem not_gives_of_long : ∃ o c p,
    Options.ofArgs ["--json", "a", "b"] = .ok o ∧ o.Uses longDirectory c ∧ p ∈ o.sources ∧
      (longDirectory.source p).Parses ∧ (longDirectory.source p).exported.length = 1 ∧
      ∀ r, ¬ o.Gives longDirectory r := by
  have hexported : (longDirectory.source (.ofString "a")).exported.length = 1 := by decide +kernel
  have hparses := Source.parses_of_exported (List.ne_nil_of_length_eq_add_one hexported)
  have hb : .ofString "b" ∈ longOptions.sources := by simp [longOptions]
  obtain ⟨e, he⟩ := run_eq_error_iff.2
    (longOptions_uses.report_eq_error_iff.2 ⟨_, hb, longDirectory_oversized⟩)
  refine ⟨longOptions, _, .ofString "a", longOptions_ofArgs, longOptions_uses,
    by simp [longOptions], hparses, hexported, fun r hr => ?_⟩
  obtain ⟨trace, hrun⟩ := hr.json
  cases he.symm.trans hrun

end Options

end NativeBinding
