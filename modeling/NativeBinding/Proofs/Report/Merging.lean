import NativeBinding.Proofs.Decl.Respan
import NativeBinding.Proofs.Grammar.Moved
import NativeBinding.Proofs.Report.Scheduling

/-!
Merging of reports. What a source contributes does not depend on the sources around it: its plans
stand in one piece, and its diagnostics keep their order. Failures enter the log before all batches,
but a source that fails has no declarations, so at each place either only failures are reported or
none: the report on all sources is the merge of the reports on each.
-/

namespace NativeBinding

theorem SourceFile.rejected_file {file : Option String} {text : String} {cause : ParseCause}
    {span : Span} (h : SourceFile.parse text file = .error (.rejected cause span)) :
    span.file = file := by
  rw [parse] at h
  split at h
  · cases h
    rfl
  · next items hread =>
    -- No lexeme changes, and a span of the file stays when it is put into the file once more.
    let f : Grammar.Relabelling := fun _ l => l
    let μ : Span → Span := fun s => { s with file }
    have hmoves : f.Moves file μ := ⟨⟨fun _ _ => rfl, fun _ _ => rfl, rfl⟩, fun _ => rfl⟩
    have hself (t : Grammar.Token) : t.relabel f = t := rfl
    obtain ⟨ts, s, p, hreads, hfinish⟩ := Grammar.readMasked_eq_ok_iff.1 hread
    have hstate := Grammar.State.relabel_eq_self hreads.feeds rfl fun t _ => hself t
    have hitems : items.map (Grammar.ItemTree.relabel f) = items := by
      have := s.finish?_relabel (f := f)
      rw [hstate, hfinish] at this
      exact (Option.some.inj this).symm
    have htrees := ofTrees_relabel hmoves items
    rw [hitems] at htrees
    cases hbad : ofTrees file items with
    | ok f => rw [hbad] at h; cases h
    | error e =>
      rw [hbad] at h htrees
      cases e with
      | oversized e => cases h
      | escape e s =>
        cases h
        have hspan : μ span = span := (BadLiteral.escape.inj (Except.error.inj htrees)).2.symm
        rw [← hspan]

namespace Reading

def declared (types : List String) (r : Reading) : List Diagnostic :=
  r.decls.flatMap fun d => (d.verdict types).diagnostics

def reported (types : List String) (r : Reading) : List Diagnostic :=
  r.failure?.toList ++ r.declared types

/-- No declaration has a diagnostic where a failure is reported. -/
def Separate (types : List String) (rs : List Reading) : Prop :=
  ∀ x ∈ rs.filterMap failure?, ∀ y ∈ rs.flatMap (declared types), x.key ≠ y.key

end Reading

theorem flatMap_append_of_nil {α β : Type} {as : List α} {f g : α → List β}
    (h : as.flatMap f = [] ∨ as.flatMap g = []) :
    as.flatMap f ++ as.flatMap g = as.flatMap fun a => f a ++ g a := by
  rcases h with h | h
  · rw [h, List.nil_append]
    exact List.flatMap_congr fun a ha => by rw [List.flatMap_eq_nil_iff.1 h a ha, List.nil_append]
  · rw [h, List.append_nil]
    exact List.flatMap_congr fun a ha => by rw [List.flatMap_eq_nil_iff.1 h a ha, List.append_nil]

/-- At each place the log of all readings holds what each reports, in order. -/
theorem Reading.Separate.filter_log {types : List String} {rs : List Reading}
    (h : Separate types rs) (k : String × Int × Int) :
    (rs.filterMap failure? ++ rs.flatMap (declared types)).filter (·.key = k) =
      rs.flatMap fun r => (r.reported types).filter (·.key = k) := by
  have hfailures : (rs.filterMap failure?).filter (·.key = k) =
      rs.flatMap fun r => r.failure?.toList.filter (·.key = k) := by
    rw [List.filterMap_eq_flatMap_toList, List.filter_flatMap]
  have hdeclared : (rs.flatMap (declared types)).filter (·.key = k) =
      rs.flatMap fun r => (r.declared types).filter (·.key = k) := by
    rw [List.filter_flatMap]
  simp only [reported, List.filter_append]
  rw [hfailures, hdeclared]
  apply flatMap_append_of_nil
  rw [← hfailures, ← hdeclared]
  simp only [List.filter_eq_nil_iff, decide_eq_true_eq]
  by_cases hk : ∃ x ∈ rs.filterMap failure?, x.key = k
  · obtain ⟨x, hx, rfl⟩ := hk
    exact Or.inr fun y hy heq => h x hx y hy heq.symm
  · exact Or.inl fun x hx heq => hk ⟨x, hx, heq⟩

theorem Source.reported_file {s : Source} {r : Reading} (h : s.reading = .ok r)
    {types : List String} {x : Diagnostic} (hx : x ∈ r.reported types) :
    x.span.file = some s.path.text := by
  rw [Reading.reported, List.mem_append] at hx
  rcases hx with hx | hx
  · rw [Option.mem_toList] at hx
    rw [reading] at h
    split at h
    · next f htext =>
      cases h
      cases hx
      rfl
    · next text htext =>
      split at h
      · cases h
        cases hx
      · next cause span hparse =>
        cases h
        cases hx
        exact SourceFile.rejected_file hparse
      · cases h
  · obtain ⟨d, hd, hx⟩ := List.mem_flatMap.1 hx
    obtain ⟨text, f, -, hf, hd⟩ := parse_of_reading h hd
    exact SourceFile.diagnostics_file hf hd hx

namespace Report

structure IsMerge (rs : List Report) (r : Report) : Prop where
  plans : r.plans = rs.flatMap Report.plans
  diagnostics : r.diagnostics = Diagnostic.sort (rs.flatMap Report.diagnostics)
  exitCode : r.exitCode = (rs.map Report.exitCode).foldr max 0

theorem diagnostics_ofReadings (types : List String) (rs : List Reading) :
    (ofReadings types rs).diagnostics = Diagnostic.sort
      (rs.filterMap Reading.failure? ++ rs.flatMap (Reading.declared types)) := by
  simp only [ofReadings, ofArrivals, logOf_entries, List.map_map, ← List.flatMap_def,
    List.flatMap_assoc]
  rfl

theorem diagnostics_ofReading (types : List String) (r : Reading) :
    (ofReadings types [r]).diagnostics = Diagnostic.sort (r.reported types) := by
  rw [diagnostics_ofReadings, Reading.reported, List.flatMap_singleton]
  cases h : r.failure? <;> simp [h]

theorem exitCode_foldr (rs : List Report) :
    (rs.map exitCode).foldr max 0 = if rs.any hasErrors then 1 else 0 := by
  induction rs with
  | nil => rfl
  | cons r rs ih =>
    rw [List.map_cons, List.foldr_cons, ih, exitCode, List.any_cons]
    cases r.hasErrors <;> cases rs.any hasErrors <;> rfl

theorem hasErrors_of_sort {r : Report} {rs : List Report}
    (h : r.diagnostics = Diagnostic.sort (rs.flatMap Report.diagnostics)) :
    r.hasErrors = rs.any hasErrors := by
  have hperm : r.diagnostics.Perm (rs.flatMap Report.diagnostics) := by
    rw [h]
    exact List.mergeSort_perm _ _
  rw [hasErrors, hperm.any_eq, List.any_flatMap]
  rfl

theorem isMerge_ofReadings {types : List String} {rs : List Reading}
    (h : Reading.Separate types rs) :
    (ofReadings types rs).IsMerge (rs.map fun r => ofReadings types [r]) := by
  have hdiagnostics : (ofReadings types rs).diagnostics =
      Diagnostic.sort ((rs.map fun r => ofReadings types [r]).flatMap Report.diagnostics) := by
    rw [diagnostics_ofReadings]
    refine Diagnostic.sort_eq_of_filter_eq fun k => ?_
    rw [h.filter_log, List.flatMap_map, List.filter_flatMap]
    simp only [diagnostics_ofReading, Diagnostic.filter_sort]
  refine ⟨?_, hdiagnostics, ?_⟩
  · simp only [plans, ofReadings, ofArrivals, List.flatMap_map, List.filterMap_map,
      List.filterMap_flatMap, List.flatMap_singleton]
  · rw [exitCode_foldr, exitCode, hasErrors_of_sort hdiagnostics]

theorem ofReadings_failure (types : List String) (d : Diagnostic) :
    ofReadings types [.failure d] = .ofFailure d := by
  simp [ofReadings, ofArrivals, ofFailure, logOf_entries, Reading.decls, Reading.failure?,
    Diagnostic.sort]

/-- `r'` is `r` with one more diagnostic, in its place. -/
structure GainsFailure (r : Report) (d : Diagnostic) (r' : Report) : Prop where
  verdicts : r'.verdicts = r.verdicts
  kept : r.diagnostics.Sublist r'.diagnostics
  gained : r'.diagnostics.Perm (d :: r.diagnostics)

theorem ofReadings_gainsFailure (types : List String) (front back : List Reading)
    (d : Diagnostic) : (ofReadings types (front ++ back)).GainsFailure d
      (ofReadings types (front ++ .failure d :: back)) := by
  constructor
  case verdicts => simp [ofReadings, ofArrivals, Reading.decls]
  case kept =>
    rw [diagnostics_ofReadings, diagnostics_ofReadings]
    refine Diagnostic.sort_sublist (List.Sublist.append ?_ ?_)
    · rw [List.filterMap_append, List.filterMap_append]
      exact List.Sublist.append_left ((List.sublist_cons_self _ _).filterMap _) _
    · rw [List.flatMap_append, List.flatMap_append]
      exact List.Sublist.append_left (List.Sublist.refl _) _
  case gained =>
    rw [diagnostics_ofReadings, diagnostics_ofReadings]
    refine (List.mergeSort_perm _ _).trans (.trans ?_ ((List.mergeSort_perm _ _).symm.cons d))
    have hfailure : Reading.failure? (.failure d) = some d := rfl
    have hdeclared : Reading.declared types (.failure d) = [] := rfl
    simp only [List.filterMap_append, List.filterMap_cons, List.flatMap_append, List.flatMap_cons,
      List.append_assoc, List.cons_append, hfailure, hdeclared, List.nil_append]
    exact List.perm_middle

end Report

theorem Options.source_eq_of_text_eq {args : List String} {o : Options}
    (hargs : Options.ofArgs args = .ok o) {w : Surroundings} {s s' : Source} (hs : s ∈ o.load w)
    (hs' : s' ∈ o.load w) (h : s.path.text = s'.path.text) : s = s' := by
  obtain ⟨names, hnames⟩ := sources_of_ofArgs hargs
  rw [load, hnames, List.map_map] at hs hs'
  obtain ⟨name, -, rfl⟩ := List.mem_map.1 hs
  obtain ⟨name', -, rfl⟩ := List.mem_map.1 hs'
  simp only [Function.comp_apply, Source.path_ofBytes] at h ⊢
  rw [Path.ofString_eq_of_text_eq h]

theorem Options.separate_of_load {args : List String} {o : Options}
    (hargs : Options.ofArgs args = .ok o) {w : Surroundings} {rs : List Reading}
    (hrs : (o.load w).mapM Source.reading = .ok rs) (types : List String) :
    Reading.Separate types rs := by
  intro x hx y hy hkey
  obtain ⟨r, hr, hx⟩ := List.mem_filterMap.1 hx
  obtain ⟨r', hr', hy⟩ := List.mem_flatMap.1 hy
  obtain ⟨s, hs, hr⟩ := exists_of_mem_mapM hrs hr
  obtain ⟨s', hs', hr'⟩ := exists_of_mem_mapM hrs hr'
  have hxr : x ∈ r.reported types := List.mem_append_left _ (Option.mem_toList.2 hx)
  have hyr : y ∈ r'.reported types := List.mem_append_right _ hy
  have hfile : x.span.file = some s.path.text := Source.reported_file hr hxr
  have hfile' : y.span.file = some s'.path.text := Source.reported_file hr' hyr
  have htext : s.path.text = s'.path.text := by
    have := congrArg Prod.fst hkey
    simpa [Diagnostic.key, hfile, hfile'] using this
  obtain rfl := source_eq_of_text_eq hargs hs hs' htext
  obtain rfl := Except.ok.inj (hr.symm.trans hr')
  cases r with
  | failure d => cases hy
  | declarations ds => cases hx

end NativeBinding
