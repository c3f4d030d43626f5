import NativeBinding.Proofs.Report.Aborts
import NativeBinding.Proofs.Report.Merging

/-!
Sources of one run. A run reports on all of its sources exactly when it reports on each alone, and
then its report is the merge of theirs. A source that cannot be read or parsed adds one diagnostic
and changes nothing else; but a source with an oversized integer literal leaves no report at all.
-/

namespace NativeBinding

open CommandLine

def Output.shown (out : Output) : Nat × List String :=
  (out.exitCode, out.stdout)

def Report.shown (r : Report) : Nat × List String :=
  (r.exitCode, [r.toJson.render])

namespace Options

/-- The sources of a run that is reported as JSON do not disturb each other. -/
structure Isolated (w : Surroundings) (o : Options) : Prop where
  shown (ps : List Path) :
    ((o.withSources ps).run w).map Output.shown = ((o.withSources ps).report w).map Report.shown
  aborts {c : Config} (hc : o.Uses w c) :
    (∃ e, o.report w = .error e) ↔ ∃ p ∈ o.sources, (w.source p).Oversized
  abortsAlone {c : Config} (hc : o.Uses w c) (p : Path) :
    (∃ e, (o.withSources [p]).report w = .error e) ↔ (w.source p).Oversized
  merged {c : Config} (hc : o.Uses w c) (rs : List Report)
    (h : (o.sources.mapM fun p => (o.withSources [p]).report w) = .ok rs) :
    ∃ r, o.report w = .ok r ∧ r.IsMerge rs
  failing {c : Config} (hc : o.Uses w c) (front : List Path) (p : Path) (back : List Path)
    (hp : o.sources = front ++ p :: back) (hparse : ¬ (w.source p).Parses)
    (hsize : ¬ (w.source p).Oversized) :
    ∃ d, (o.withSources [p]).report w = .ok (.ofFailure d) ∧
      ∀ r, (o.withSources (front ++ back)).report w = .ok r →
        ∃ r', o.report w = .ok r' ∧ r.GainsFailure d r'
  refused {f : ConfigFault} (hf : o.Refuses w f) :
    ∃ d, ∀ ps, (o.withSources ps).report w = .ok (.ofFailure d)

variable {w : Surroundings} {o : Options} {c : Config}

theorem shown_eq (hjson : o.json) (w : Surroundings) :
    (o.run w).map Output.shown = (o.report w).map Report.shown := by
  obtain ⟨trace, hrun⟩ := run_eq w o
  rw [hrun]
  cases o.report w with
  | error e => rfl
  | ok r =>
    simp only [Except.map, outputOf, hjson, if_true]
    rfl

theorem Uses.readings_of_alone (h : o.Uses w c) {ps : List Path} {rs : List Report}
    (hrs : (ps.mapM fun p => (o.withSources [p]).report w) = .ok rs) : ∃ readings,
      (ps.mapM fun p => (w.source p).reading) = .ok readings ∧
        rs = readings.map fun q => .ofReadings c.contextTypes [q] := by
  induction ps generalizing rs with
  | nil => exact ⟨[], rfl, mapM_nil_eq_ok hrs⟩
  | cons p ps ih =>
    obtain ⟨r, rs, hr, htail, rfl⟩ := mapM_cons_eq_ok hrs
    obtain ⟨readings, hreadings, rfl⟩ := ih htail
    obtain ⟨readings', hp, rfl⟩ := h.report_eq_ok_iff.1 hr
    obtain ⟨q, readings', hq, hnil, rfl⟩ := mapM_cons_eq_ok hp
    obtain rfl := mapM_nil_eq_ok hnil
    exact ⟨q :: readings, by rw [List.mapM_cons, hq, hreadings]; rfl, rfl⟩

theorem Uses.report_isMerge {args : List String} (h : o.Uses w c)
    (hargs : Options.ofArgs args = .ok o) {rs : List Report}
    (hrs : (o.sources.mapM fun p => (o.withSources [p]).report w) = .ok rs) :
    ∃ r, o.report w = .ok r ∧ r.IsMerge rs := by
  obtain ⟨readings, hreadings, rfl⟩ := h.readings_of_alone hrs
  refine ⟨.ofReadings c.contextTypes readings, h.report_eq_ok_iff.2 ⟨_, hreadings, rfl⟩, ?_⟩
  apply Report.isMerge_ofReadings
  apply separate_of_load hargs (w := w)
  rw [load, List.mapM_map]
  exact hreadings

section

variable {p : Path} {d : Diagnostic} (hd : (w.source p).reading = .ok (.failure d))
include hd

theorem Uses.report_failure (h : o.Uses w c) :
    (o.withSources [p]).report w = .ok (.ofFailure d) := by
  have halone : [p].mapM (fun p => (w.source p).reading) = .ok [.failure d] := by
    rw [List.mapM_cons, hd]
    rfl
  exact h.report_eq_ok_iff.2 ⟨_, halone, (Report.ofReadings_failure _ _).symm⟩

theorem Uses.report_gainsFailure (h : o.Uses w c) {front back : List Path} {r : Report}
    (hr : (o.withSources (front ++ back)).report w = .ok r) :
    ∃ r', (o.withSources (front ++ p :: back)).report w = .ok r' ∧ r.GainsFailure d r' := by
  obtain ⟨readings, hreadings, rfl⟩ := h.report_eq_ok_iff.1 hr
  rw [List.mapM_append] at hreadings
  obtain ⟨before, hbefore, hreadings⟩ := bind_eq_ok_iff.1 hreadings
  obtain ⟨after, hafter, hreadings⟩ := bind_eq_ok_iff.1 hreadings
  cases hreadings
  refine ⟨_, h.report_eq_ok_iff.2 ⟨before ++ .failure d :: after, ?_, rfl⟩,
    Report.ofReadings_gainsFailure _ _ _ _⟩
  rw [List.mapM_append, hbefore, List.mapM_cons, hd, hafter]
  rfl

end

/-- Sources are isolated, up to oversized literals, under each configuration that stands. -/
theorem isolated {args : List String} (hargs : Options.ofArgs args = .ok o) (hjson : o.json)
    (w : Surroundings) : o.Isolated w := by
  constructor
  case shown => exact fun ps => shown_eq (o := o.withSources ps) hjson w
  case aborts => exact fun hc => hc.report_eq_error_iff
  case abortsAlone =>
    intro c hc p
    rw [hc.report_eq_error_iff]
    simp
  case refused =>
    intro f hf
    obtain ⟨path, hreport⟩ := hf.report_eq
    exact ⟨_, hreport⟩
  case merged => exact fun hc rs hrs => hc.report_isMerge hargs hrs
  case failing =>
    intro c hc front p back hp hparse hsize
    obtain ⟨d, hd⟩ := Source.exists_failure hparse hsize
    refine ⟨d, hc.report_failure hd, fun r hr => ?_⟩
    obtain ⟨r', hr', hgains⟩ := hc.report_gainsFailure hd hr
    rw [← hp] at hr'
    exact ⟨r', hr', hgains⟩

theorem isolated_of_missing : ∃ o c,
    (Options.ofArgs ["--json", "a", "c", "a"] = .ok o ∧ o.json ∧ o.Uses longDirectory c) ∧
      o.Isolated longDirectory :=
  have hc : (longOptions.withSources [.ofString "a", .ofString "c", .ofString "a"]).Uses
      longDirectory .standard := longOptions_uses
  have hargs : Options.ofArgs ["--json", "a", "c", "a"] =
      .ok (longOptions.withSources [.ofString "a", .ofString "c", .ofString "a"]) := rfl
  ⟨_, _, ⟨hargs, rfl, hc⟩, isolated hargs rfl longDirectory⟩

/-- A run over a source with a plan and one with an oversized integer has no report. -/
theorem not_merged_of_long : ∃ o c r,
    Options.ofArgs ["--json", "a", "b"] = .ok o ∧ o.json ∧ o.Uses longDirectory c ∧
      o.sources = [.ofString "a", .ofString "b"] ∧
      (o.withSources [.ofString "a"]).report longDirectory = .ok r ∧ r.plans.length = 1 ∧
      ∃ e, o.run longDirectory = .error e := by
  have hplans : ((longOptions.withSources [.ofString "a"]).report longDirectory).toOption.map
      (·.plans.length) = some 1 := by decide +kernel
  obtain ⟨r, hr, hplans⟩ := Option.map_eq_some_iff.1 hplans
  have hb : .ofString "b" ∈ longOptions.sources := by simp [longOptions]
  have hrun := run_eq_error_iff.2
    (longOptions_uses.report_eq_error_iff.2 ⟨_, hb, longDirectory_oversized⟩)
  exact ⟨longOptions, _, r, longOptions_ofArgs, rfl, longOptions_uses, rfl, eq_ok_of_toOption hr,
    hplans, hrun⟩

end Options

end NativeBinding
