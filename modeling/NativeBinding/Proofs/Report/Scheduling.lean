import NativeBinding.CommandLine.Run
import NativeBinding.Proofs.File.PathText
import NativeBinding.Proofs.Report.Sorting

/-!
Workers that share the declarations of a run. Each takes the next waiting declaration, and when it
has the verdict it adds the diagnostics to the log as one batch. Whatever the number of workers and
the order in which they finish, the log holds the failures of the sources and then every batch once,
and the report is the one that `Report.ofSources` gives for a single worker.
-/

namespace NativeBinding

inductive Status
  | waiting
  | running
  | finished (v : Verdict)

structure Task where
  decl : Decl
  status : Status

namespace Task

def isRunning (t : Task) : Bool :=
  match t.status with
  | .running => true
  | _ => false

def isWaiting (t : Task) : Bool :=
  match t.status with
  | .waiting => true
  | _ => false

def verdict? (t : Task) : Option (Decl × Verdict) :=
  match t.status with
  | .finished v => some (t.decl, v)
  | _ => none

end Task

structure Pool where
  tasks : List Task
  log : DiagnosticLog

namespace Pool

def start (failures : List Diagnostic) (ds : List Decl) : Pool :=
  ⟨ds.map (⟨·, .waiting⟩), ⟨failures⟩⟩

def verdicts (p : Pool) : List (Decl × Verdict) :=
  p.tasks.filterMap Task.verdict?

def report (p : Pool) : Report :=
  ⟨p.verdicts, Diagnostic.sort p.log.entries⟩

def Done (p : Pool) : Prop :=
  ∀ t ∈ p.tasks, t.verdict?.isSome

/-- There is always one worker at least. -/
inductive Step (types : List String) (jobs : Nat) : Pool → Pool → Prop
  | take {front back : List Task} {d : Decl} {log : DiagnosticLog}
      (hnext : ∀ t ∈ front, !t.isWaiting)
      (hfree : (front ++ back).countP Task.isRunning < max 1 jobs) :
      Step types jobs ⟨front ++ ⟨d, .waiting⟩ :: back, log⟩ ⟨front ++ ⟨d, .running⟩ :: back, log⟩
  | finish {front back : List Task} {d : Decl} {log : DiagnosticLog} :
      Step types jobs ⟨front ++ ⟨d, .running⟩ :: back, log⟩
        ⟨front ++ ⟨d, .finished (d.verdict types)⟩ :: back,
          log.extend (d.verdict types).diagnostics⟩

inductive Run (types : List String) (jobs : Nat) (p : Pool) : Pool → Prop
  | refl : Run types jobs p p
  | tail {q r : Pool} (prior : Run types jobs p q) (step : Step types jobs q r) :
      Run types jobs p r

@[simp] theorem verdict?_waiting (d : Decl) : Task.verdict? ⟨d, .waiting⟩ = none := rfl

@[simp] theorem verdict?_running (d : Decl) : Task.verdict? ⟨d, .running⟩ = none := rfl

@[simp] theorem verdict?_finished (d : Decl) (v : Verdict) :
    Task.verdict? ⟨d, .finished v⟩ = some (d, v) := rfl

/-- The batches of the finished tasks have arrived in some order, behind the failures. -/
structure Consistent (types : List String) (failures : List Diagnostic) (ds : List Decl)
    (p : Pool) : Prop where
  decls : p.tasks.map Task.decl = ds
  verdicts : ∀ dv ∈ p.verdicts, dv.2 = dv.1.verdict types
  log : ∃ arrived : List (List Diagnostic),
    arrived.Perm (p.verdicts.map (·.2.diagnostics)) ∧ p.log.entries = failures ++ arrived.flatten

variable {types : List String} {jobs : Nat} {failures : List Diagnostic} {ds : List Decl}
  {p q : Pool}

theorem consistent_start : (start failures ds).Consistent types failures ds := by
  have hnone : (start failures ds).verdicts = [] := by
    simp [verdicts, start]
  refine ⟨by simp [start, Function.comp_def], by simp [hnone], [], ?_, by simp [start]⟩
  rw [hnone]
  exact .nil

theorem Step.consistent (h : Step types jobs p q) (hp : p.Consistent types failures ds) :
    q.Consistent types failures ds := by
  obtain ⟨hdecls, hverdicts, arrived, hperm, hlog⟩ := hp
  cases h with
  | take =>
    refine ⟨by simpa using hdecls, ?_, arrived, ?_, hlog⟩
    · simpa [Pool.verdicts, List.filterMap_cons] using hverdicts
    · simpa [Pool.verdicts, List.filterMap_cons] using hperm
  | @finish front back d log =>
    refine ⟨by simpa using hdecls, ?_, arrived ++ [(d.verdict types).diagnostics], ?_, ?_⟩
    · simp only [Pool.verdicts, List.filterMap_append, List.filterMap_cons, verdict?_running,
        verdict?_finished, List.mem_append, List.mem_cons] at hverdicts ⊢
      rintro dv (hdv | rfl | hdv)
      · exact hverdicts dv (Or.inl hdv)
      · rfl
      · exact hverdicts dv (Or.inr hdv)
    · simp only [Pool.verdicts, List.filterMap_append, List.filterMap_cons, verdict?_running,
        verdict?_finished, List.map_append, List.map_cons] at hperm ⊢
      exact (List.perm_append_singleton _ _).trans
        ((hperm.cons _).trans List.perm_middle.symm)
    · simp only [DiagnosticLog.extend] at *
      simp [hlog]

theorem Run.consistent (h : Run types jobs (start failures ds) p) :
    p.Consistent types failures ds := by
  induction h with
  | refl => exact consistent_start
  | tail _ hstep ih => exact hstep.consistent ih

theorem Done.verdicts_eq (h : p.Done) (hp : p.Consistent types failures ds) :
    p.verdicts = ds.map fun d => (d, d.verdict types) := by
  obtain ⟨hdecls, hverdicts, -⟩ := hp
  obtain ⟨tasks, log⟩ := p
  simp only [Pool.Done, Pool.verdicts] at *
  subst hdecls
  induction tasks with
  | nil => rfl
  | cons t tasks ih =>
    obtain ⟨dv, hdv⟩ := Option.isSome_iff_exists.1 (h t List.mem_cons_self)
    have hdecl : dv.1 = t.decl := by
      rw [Task.verdict?] at hdv
      split at hdv <;> cases hdv
      rfl
    rw [List.filterMap_cons, hdv] at hverdicts ⊢
    have hv := hverdicts dv List.mem_cons_self
    rw [ih (fun t ht => h t (List.mem_cons_of_mem _ ht))
      (fun dv hdv => hverdicts dv (List.mem_cons_of_mem _ hdv))]
    simp [← hdecl, ← hv]

def remaining (p : Pool) : Nat :=
  2 * p.tasks.countP Task.isWaiting + p.tasks.countP Task.isRunning

theorem Step.remaining_lt (h : Step types jobs p q) : q.remaining < p.remaining := by
  cases h <;>
  · simp [Pool.remaining, List.countP_cons, Task.isWaiting, Task.isRunning]
    try omega

theorem exists_step (types : List String) (jobs : Nat) (h : ¬ p.Done) :
    ∃ q, Step types jobs p q := by
  obtain ⟨tasks, log⟩ := p
  by_cases hrunning : ∃ t ∈ tasks, t.isRunning
  · obtain ⟨⟨d, status⟩, ht, hstatus⟩ := hrunning
    obtain ⟨front, back, rfl⟩ := List.append_of_mem ht
    cases status <;> cases hstatus
    exact ⟨_, .finish⟩
  · -- No worker is busy, so the first waiting task is taken.
    have hwaiting : ∃ t ∈ tasks, t.isWaiting := by
      simp only [Done, Classical.not_forall] at h
      obtain ⟨⟨d, status⟩, ht, hstatus⟩ := h
      refine ⟨_, ht, ?_⟩
      cases status with
      | waiting => rfl
      | running => exact absurd ⟨_, ht, rfl⟩ hrunning
      | finished v => exact absurd rfl hstatus
    obtain ⟨t, hfind⟩ := Option.isSome_iff_exists.1 (List.find?_isSome.2 hwaiting)
    obtain ⟨htrue, front, back, rfl, hnext⟩ := List.find?_eq_some_iff_append.1 hfind
    obtain ⟨d, status⟩ := t
    cases status <;> cases htrue
    refine ⟨_, .take (by simpa using hnext) ?_⟩
    have hzero : (front ++ back).countP Task.isRunning = 0 := by
      rw [List.countP_eq_zero]
      intro t ht hrun
      refine hrunning ⟨t, ?_, hrun⟩
      rcases List.mem_append.1 ht with ht | ht <;> simp [ht]
    omega

/-- A run can be taken to its end. -/
theorem Run.exists_done (h : Run types jobs p q) : ∃ r, Run types jobs p r ∧ r.Done := by
  induction hn : q.remaining using Nat.strongRecOn generalizing q with
  | ind n ih =>
    by_cases hdone : q.Done
    · exact ⟨q, h, hdone⟩
    · obtain ⟨r, hstep⟩ := exists_step types jobs hdone
      exact ih _ (hn ▸ hstep.remaining_lt) (h.tail hstep) rfl

theorem exists_run (types : List String) (jobs : Nat) (p : Pool) :
    ∃ q, Run types jobs p q ∧ q.Done :=
  Run.exists_done .refl

end Pool

theorem Report.logOf_entries (failures : List Diagnostic) (batches : List (List Diagnostic)) :
    (Report.logOf failures batches).entries = failures ++ batches.flatten := by
  rw [Report.logOf]
  induction batches generalizing failures with
  | nil => simp
  | cons b bs ih => simp [DiagnosticLog.extend, ih]

theorem Source.path_ofBytes (path : Path) (content : Except FileFault (List UInt8)) :
    (Source.ofBytes path content).path = path := by
  rw [ofBytes.eq_def]
  split
  · rfl
  · split <;> rfl

theorem Source.parse_of_reading {s : Source} {r : Reading} (h : s.reading = .ok r) {d : Decl}
    (hd : d ∈ r.decls) :
    ∃ text f, s.text = .ok text ∧ SourceFile.parse text (some s.path.text) = .ok f ∧
      d ∈ f.declarations := by
  rw [reading] at h
  split at h
  · cases h
    cases hd
  · next text htext =>
    split at h
    · next f hf =>
      cases h
      exact ⟨text, f, htext, hf, (List.mem_filter.1 hd).1⟩
    · cases h
      cases hd
    · cases h

theorem Options.sources_of_ofArgs {args : List String} {o : Options}
    (h : Options.ofArgs args = .ok o) :
    ∃ names : List String, o.sources = names.map Path.ofString := by
  rw [ofArgs] at h
  split at h
  · cases h
  · obtain ⟨p, -, h⟩ := bind_eq_ok_iff.1 h
    rw [CommandLine.Progress.finish] at h
    split at h
    · cases h
    · split at h <;> cases h
      exact ⟨p.sources, rfl⟩

theorem Options.interchangeable_of_load {args : List String} {o : Options}
    (hargs : Options.ofArgs args = .ok o) {w : Surroundings} {rs : List Reading}
    (hrs : (o.load w).mapM Source.reading = .ok rs) {types : List String} {d d' : Decl}
    (hd : d ∈ rs.flatMap Reading.decls) (hd' : d' ∈ rs.flatMap Reading.decls) :
    Interchangeable (d.verdict types).diagnostics (d'.verdict types).diagnostics := by
  obtain ⟨names, hnames⟩ := sources_of_ofArgs hargs
  have origin {d : Decl} (hd : d ∈ rs.flatMap Reading.decls) : ∃ name text f,
      (Source.ofBytes (.ofString name) (w.read (.ofString name))).text = .ok text ∧
        SourceFile.parse text (some (Path.ofString name).text) = .ok f ∧ d ∈ f.declarations := by
    obtain ⟨r, hr, hd⟩ := List.mem_flatMap.1 hd
    obtain ⟨s, hs, hr⟩ := exists_of_mem_mapM hrs hr
    rw [load, hnames, List.map_map] at hs
    obtain ⟨name, -, rfl⟩ := List.mem_map.1 hs
    obtain ⟨text, f, htext, hf, hd⟩ := Source.parse_of_reading hr hd
    rw [Function.comp_apply, Source.path_ofBytes] at hf
    exact ⟨name, text, f, htext, hf, hd⟩
  obtain ⟨name, text, f, htext, hf, hd⟩ := origin hd
  obtain ⟨name', text', f', htext', hf', hd'⟩ := origin hd'
  by_cases hpath : (Path.ofString name).text = (Path.ofString name').text
  · rw [← Path.ofString_eq_of_text_eq hpath, htext] at htext'
    cases htext'
    rw [← hpath, hf] at hf'
    cases hf'
    exact SourceFile.interchangeable_of_parse hf hd hd'
  · exact interchangeable_of_files_ne (fun _ => SourceFile.diagnostics_file hf hd)
      (fun _ => SourceFile.diagnostics_file hf' hd') hpath

/-- The number of workers and the order in which they finish do not show in a report. -/
theorem Report.eq_of_run {args : List String} {o : Options} (hargs : Options.ofArgs args = .ok o)
    {w : Surroundings} {rs : List Reading} (hrs : (o.load w).mapM Source.reading = .ok rs)
    {types : List String} {jobs : Nat} {p : Pool}
    (hrun : Pool.Run types jobs
      (.start (rs.filterMap Reading.failure?) (rs.flatMap Reading.decls)) p)
    (hdone : p.Done) :
    (∃ arrived : List (List Diagnostic),
      arrived.Perm (p.verdicts.map (·.2.diagnostics)) ∧
        p.log.entries = rs.filterMap Reading.failure? ++ arrived.flatten) ∧
      p.verdicts = (rs.flatMap Reading.decls).map (fun d => (d, d.verdict types)) ∧
      Report.ofSources types (o.load w) = .ok p.report := by
  have hp := hrun.consistent
  have hverdicts := hdone.verdicts_eq hp
  obtain ⟨arrived, hperm, hlog⟩ := hp.log
  refine ⟨⟨arrived, hperm, hlog⟩, hverdicts, ?_⟩
  rw [ofSources, hrs]
  change Except.ok _ = _
  rw [Pool.report, ofReadings, ofArrivals, logOf_entries, hlog, ← hverdicts]
  congr 2
  -- Whatever has arrived is the batch of some declaration.
  have origin {a : List Diagnostic} (ha : a ∈ arrived) :
      ∃ d ∈ rs.flatMap Reading.decls, (d.verdict types).diagnostics = a := by
    rw [hperm.mem_iff, hverdicts, List.map_map] at ha
    simpa using ha
  refine (sort_eq_of_arrivals hperm fun a ha b hb => ?_).symm
  obtain ⟨d, hd, rfl⟩ := origin ha
  obtain ⟨d', hd', rfl⟩ := origin hb
  exact Options.interchangeable_of_load hargs hrs hd hd'

theorem Report.eq_of_run_of_source_named_twice :
    ∃ (o : Options) (w : Surroundings) (rs : List Reading) (p : Pool),
      (Options.ofArgs ["lib", "lib"] = .ok o ∧ (o.load w).mapM Source.reading = .ok rs ∧
        Pool.Run [] 2 (.start (rs.filterMap Reading.failure?) (rs.flatMap Reading.decls)) p ∧
        p.Done ∧ p.tasks.length = 4) ∧
      (∃ arrived : List (List Diagnostic),
        arrived.Perm (p.verdicts.map (·.2.diagnostics)) ∧
          p.log.entries = rs.filterMap Reading.failure? ++ arrived.flatten) ∧
      p.verdicts = (rs.flatMap Reading.decls).map (fun d => (d, d.verdict [])) ∧
      Report.ofSources [] (o.load w) = .ok p.report := by
  let text := "impl<T> A<T> { #[fn] pub fn f(); #[fn] pub fn g(); }"
  let w : Surroundings := ⟨.ofString "/", fun _ => .ok text.toUTF8.toList⟩
  let o : Options := ⟨[.ofString "lib", .ofString "lib"], false, none, [], none, false⟩
  have hargs : Options.ofArgs ["lib", "lib"] = .ok o := by rfl
  have hcount : ((o.load w).mapM Source.reading).toOption.map
      (fun rs => (rs.flatMap Reading.decls).length) = some 4 := by decide +kernel
  cases hrs : (o.load w).mapM Source.reading with
  | error e => simp [hrs, Except.toOption] at hcount
  | ok rs =>
    obtain ⟨p, hrun, hdone⟩ :=
      Pool.exists_run [] 2 (.start (rs.filterMap Reading.failure?) (rs.flatMap Reading.decls))
    have htasks : p.tasks.length = 4 := by
      rw [← List.length_map, hrun.consistent.decls]
      simpa [hrs, Except.toOption] using hcount
    exact ⟨o, w, rs, p, ⟨hargs, hrs, hrun, hdone, htasks⟩, Report.eq_of_run hargs hrs hrun hdone⟩

end NativeBinding
