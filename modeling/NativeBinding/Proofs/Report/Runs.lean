import NativeBinding.CommandLine.Run
import NativeBinding.Proofs.Except

/-!
Runs of the command and their reports. Unless the value of an option is lacking, a run has a
configuration: one that is refused is all that it reports, and under any other it ends without
output exactly when a source has an integer literal with too many digits. The form of the output
changes nothing in the report.
-/

namespace NativeBinding

open CommandLine

def Surroundings.source (w : Surroundings) (p : Path) : Source :=
  .ofBytes p (w.read p)

def Source.Parses (s : Source) : Prop :=
  ∃ text f, s.text = .ok text ∧ SourceFile.parse text (some s.path.text) = .ok f

def Source.Oversized (s : Source) : Prop :=
  ∃ text e, s.text = .ok text ∧ SourceFile.parse text (some s.path.text) = .error (.oversized e)

theorem Source.reading_eq_error_iff {s : Source} : (∃ e, s.reading = .error e) ↔ s.Oversized := by
  rw [reading, Oversized]
  cases s.text with
  | error f => simp
  | ok text =>
    dsimp only
    split <;> simp_all

theorem Source.exists_failure {s : Source} (hparse : ¬ s.Parses) (hsize : ¬ s.Oversized) :
    ∃ d, s.reading = .ok (.failure d) := by
  rw [Parses] at hparse
  rw [Oversized] at hsize
  rw [reading]
  split
  · exact ⟨_, rfl⟩
  · next text htext =>
    split
    · next f hf => exact absurd ⟨text, f, htext, hf⟩ hparse
    · exact ⟨_, rfl⟩
    · next e he => exact absurd ⟨text, e, htext, he⟩ hsize

namespace Options

/-- The run uses a configuration that is not refused. -/
def Uses (w : Surroundings) (o : Options) (c : Config) : Prop :=
  ∃ file, configFile w o = .ok file ∧ configure o file = .ok (.ok c)

def Refuses (w : Surroundings) (o : Options) (f : ConfigFault) : Prop :=
  ∃ file, configFile w o = .ok file ∧ configure o file = .ok (.error f)

def withSources (o : Options) (ps : List Path) : Options :=
  { o with sources := ps }

def report (w : Surroundings) (o : Options) : Except Abort Report := do
  let file ← configFile w o
  match ← configure o file with
  | .error f => return .ofFailure (f.diagnostic (file.map (·.1)))
  | .ok c => (Report.ofSources c.contextTypes (o.load w)).mapError .oversized

variable {w : Surroundings} {o : Options} {c : Config}

theorem Refuses.report_eq {f : ConfigFault} (h : o.Refuses w f) : ∃ path, ∀ ps,
    (o.withSources ps).report w = .ok (.ofFailure (f.diagnostic path)) := by
  obtain ⟨file, hfile, hconfig⟩ := h
  refine ⟨file.map (·.1), fun ps => ?_⟩
  change (configFile w o >>= _) = _
  rw [hfile]
  change (configure o file >>= _) = _
  rw [hconfig]
  rfl

theorem Uses.report_eq (h : o.Uses w c) (ps : List Path) :
    (o.withSources ps).report w =
      (Report.ofSources c.contextTypes (ps.map w.source)).mapError .oversized := by
  obtain ⟨file, hfile, hconfig⟩ := h
  change (configFile w o >>= _) = _
  rw [hfile]
  change (configure o file >>= _) = _
  rw [hconfig]
  rfl

theorem run_eq (w : Surroundings) (o : Options) :
    ∃ trace : Report → List String, o.run w = (o.report w).map fun r => outputOf o (trace r) r := by
  rw [run, report]
  cases configFile w o with
  | error e => exact ⟨fun _ => [], rfl⟩
  | ok file =>
    change ∃ trace : Report → List String, (configure o file >>= _) =
      (configure o file >>= _).map _
    cases configure o file with
    | error e => exact ⟨fun _ => [], rfl⟩
    | ok settled =>
      cases settled with
      | error f => exact ⟨fun _ => configTrace file, rfl⟩
      | ok c =>
        refine ⟨fun r => configTrace file ++ (o.load w).flatMap sourceTrace ++
          r.verdicts.map verdictTrace, ?_⟩
        change ((Report.ofSources c.contextTypes (o.load w)).mapError Abort.oversized >>= _) =
          ((Report.ofSources c.contextTypes (o.load w)).mapError Abort.oversized).map _
        cases Report.ofSources c.contextTypes (o.load w) <;> rfl

theorem Uses.report_eq_ok_iff (h : o.Uses w c) {ps : List Path} {r : Report} :
    (o.withSources ps).report w = .ok r ↔ ∃ readings,
      (ps.mapM fun p => (w.source p).reading) = .ok readings ∧
        r = .ofReadings c.contextTypes readings := by
  rw [h.report_eq, Report.ofSources, List.mapM_map]
  change ((ps.mapM fun p => (w.source p).reading).map _).mapError _ = _ ↔ _
  cases ps.mapM fun p => (w.source p).reading with
  | error e =>
    constructor
    · rintro ⟨⟩
    · rintro ⟨readings, ⟨⟩, -⟩
  | ok readings =>
    constructor
    · rintro ⟨⟩
      exact ⟨_, rfl, rfl⟩
    · rintro ⟨readings, ⟨⟩, rfl⟩
      rfl

/-- Under a configuration that stands, only an integer literal can keep a run from reporting. -/
theorem Uses.report_eq_error_iff (h : o.Uses w c) {ps : List Path} :
    (∃ e, (o.withSources ps).report w = .error e) ↔ ∃ p ∈ ps, (w.source p).Oversized := by
  simp only [← Source.reading_eq_error_iff]
  rw [← mapM_eq_error_iff, h.report_eq, Report.ofSources, List.mapM_map]
  change (∃ e, ((ps.mapM fun p => (w.source p).reading).map _).mapError _ = _) ↔ _
  cases ps.mapM fun p => (w.source p).reading with
  | error e => exact ⟨fun _ => ⟨_, rfl⟩, fun _ => ⟨_, rfl⟩⟩
  | ok readings =>
    constructor
    · rintro ⟨e, ⟨⟩⟩
    · rintro ⟨e, ⟨⟩⟩

theorem run_eq_error_iff : (∃ e, o.run w = .error e) ↔ ∃ e, o.report w = .error e := by
  obtain ⟨trace, hrun⟩ := run_eq w o
  rw [hrun]
  cases o.report w <;> simp [Except.map]

end Options

end NativeBinding
