import NativeBinding.Config
import NativeBinding.Proofs.Except

/-!
Configurations in force. A document replaces the types and holds no empty one. Calls then add types
and set the number of workers; a call for less than one worker is refused and changes nothing, types
included. The types of a call are not checked: an empty one is in force exactly if a call that is
not refused adds it.
-/

namespace NativeBinding

section

variable {known added : List String}

theorem mem_addNew {s : String} : s ∈ addNew known added ↔ s ∈ known ∨ s ∈ added := by
  induction added generalizing known with
  | nil => simp [addNew]
  | cons x added ih =>
    rw [addNew, List.foldl_cons, ← addNew, ih]
    by_cases hx : x ∈ known
    · simp only [List.contains_eq_mem, hx, decide_true, if_true, List.mem_cons]
      constructor
      · rintro (h | h)
        · exact .inl h
        · exact .inr (.inr h)
      · rintro (h | rfl | h)
        · exact .inl h
        · exact .inl hx
        · exact .inr h
    · simp [hx, or_assoc]

theorem nodup_addNew (h : known.Nodup) : (addNew known added).Nodup := by
  induction added generalizing known with
  | nil => exact h
  | cons x added ih =>
    rw [addNew, List.foldl_cons, ← addNew]
    apply ih
    by_cases hx : x ∈ known
    · simpa [hx] using h
    · simpa [hx, List.nodup_append] using ⟨h, fun y hy hyx => hx (hyx ▸ hy)⟩

end

namespace Config

def Unset (key : String) (members : List (String × Json)) : Prop :=
  Json.member? key members = none ∨ Json.member? key members = some .null

/-- What the members of a document say about a configuration. -/
structure SaidBy (members : List (String × Json)) (c : Config) : Prop where
  types : Unset "context_types" members ∧ c.contextTypes = defaultContextTypes ∨
    ∃ names, Json.member? "context_types" members = some (.ofStrings names) ∧ "" ∉ names ∧
      ∀ s, s ∈ c.contextTypes ↔ s ∈ names
  jobs : Unset "jobs" members ∧ c.jobs = 1 ∨ Json.member? "jobs" members = some (.int c.jobs)

/-- A configuration without a document, or that of one. -/
inductive IsLoaded : Config → Prop
  | standard : IsLoaded standard
  | document {bytes : List UInt8} {c : Config} (h : ofBytes bytes = .ok c) : IsLoaded c

theorem typeNames?_eq_some {items : List Json} {names : List String}
    (h : typeNames? items = some names) : items = names.map .str ∧ "" ∉ names := by
  induction items generalizing names with
  | nil =>
    obtain rfl : [] = names := by simpa [typeNames?] using h
    simp
  | cons v items ih =>
    obtain ⟨s, rfl⟩ : ∃ s, v = .str s := by
      cases v with
      | str s => exact ⟨s, rfl⟩
      | _ => simp [typeNames?] at h
    rw [typeNames?] at h
    by_cases hs : s.isEmpty
    · simp [hs] at h
    · rw [if_neg hs] at h
      obtain ⟨rest, hrest, rfl⟩ := Option.map_eq_some_iff.1 h
      obtain ⟨hitems, hempty⟩ := ih hrest
      have hne : s ≠ "" := mt String.isEmpty_iff.2 hs
      simp [hitems, hempty, hne.symm]

theorem readContextTypes_eq_ok {c c' : Config} {v : Option Json}
    (h : c.readContextTypes v = .ok c') : c'.jobs = c.jobs ∧
      ((v = none ∨ v = some .null) ∧ c'.contextTypes = c.contextTypes ∨
        ∃ names, v = some (.ofStrings names) ∧ "" ∉ names ∧
          c'.contextTypes = addNew [] names) := by
  unfold readContextTypes at h
  split at h
  · cases h
    exact ⟨rfl, .inl ⟨.inl rfl, rfl⟩⟩
  · cases h
    exact ⟨rfl, .inl ⟨.inr rfl, rfl⟩⟩
  · split at h
    · rename_i items names hnames
      cases h
      obtain ⟨rfl, hempty⟩ := typeNames?_eq_some hnames
      exact ⟨rfl, .inr ⟨names, rfl, hempty, rfl⟩⟩
    · cases h
  · cases h

theorem readJobs_eq_ok {c c' : Config} {v : Option Json} (h : c.readJobs v = .ok c') :
    c'.contextTypes = c.contextTypes ∧
      ((v = none ∨ v = some .null) ∧ c'.jobs = c.jobs ∨ v = some (.int c'.jobs)) := by
  unfold readJobs at h
  split at h
  · cases h
    exact ⟨rfl, .inl ⟨.inl rfl, rfl⟩⟩
  · cases h
    exact ⟨rfl, .inl ⟨.inr rfl, rfl⟩⟩
  · rename_i n
    split at h
    · rename_i hpos
      cases h
      have hn : n = (n.toNat : Int) := by omega
      exact ⟨rfl, .inr (congrArg (fun m => some (Json.int m)) hn)⟩
    · cases h
  · cases h

theorem saidBy_of_ofJson {v : Json} {c : Config} (h : ofJson v = .ok c) :
    ∃ members, v = .obj members ∧ SaidBy members c ∧ c.contextTypes.Nodup := by
  obtain ⟨members, rfl⟩ : ∃ members, v = .obj members := by
    cases v with
    | obj members => exact ⟨members, rfl⟩
    | _ => cases h
  rw [ofJson] at h
  split at h
  · obtain ⟨c', htypes, hjobs⟩ := bind_eq_ok_iff.1 h
    obtain ⟨hkept, htypes⟩ := readContextTypes_eq_ok htypes
    obtain ⟨hsame, hjobs⟩ := readJobs_eq_ok hjobs
    rw [hkept] at hjobs
    rw [← hsame] at htypes
    refine ⟨members, rfl, ⟨?_, hjobs⟩, ?_⟩
    · refine htypes.imp id ?_
      rintro ⟨names, hmember, hempty, hnames⟩
      exact ⟨names, hmember, hempty, fun s => by simp [hnames, mem_addNew]⟩
    · obtain ⟨-, hdefault⟩ | ⟨names, -, -, hnames⟩ := htypes
      · rw [hdefault]
        decide
      · rw [hnames]
        exact nodup_addNew List.nodup_nil
  · cases h

theorem saidBy_of_ofBytes {bytes : List UInt8} {c : Config} (h : ofBytes bytes = .ok c) :
    ∃ cs members, Text.Utf8.decode bytes = .ok cs ∧
      Json.read (Text.normalizeLines cs) = .ok (.obj members) ∧ SaidBy members c ∧
        c.contextTypes.Nodup := by
  rw [ofBytes] at h
  split at h
  · rename_i cs hcs
    rw [ofText] at h
    split at h
    · rename_i v hv
      obtain ⟨members, rfl, hsaid⟩ := saidBy_of_ofJson h
      exact ⟨cs, members, hcs, hv, hsaid⟩
    · cases h
    · cases h
  · cases h

theorem SaidBy.not_mem_empty {members : List (String × Json)} {c : Config} (h : SaidBy members c) :
    "" ∉ c.contextTypes := by
  obtain ⟨-, hdefault⟩ | ⟨names, -, hempty, hnames⟩ := h.types
  · rw [hdefault]
    decide
  · exact mt (hnames "").1 hempty

theorem IsLoaded.not_mem_empty {c : Config} (h : IsLoaded c) : "" ∉ c.contextTypes := by
  cases h with
  | standard => decide
  | document h =>
    obtain ⟨_, _, _, _, hsaid, _⟩ := saidBy_of_ofBytes h
    exact hsaid.not_mem_empty

theorem IsLoaded.nodup {c : Config} (h : IsLoaded c) : c.contextTypes.Nodup := by
  cases h with
  | standard => decide
  | document h =>
    obtain ⟨_, _, _, _, _, hnodup⟩ := saidBy_of_ofBytes h
    exact hnodup

structure Call where
  types : List String
  jobs : Option Int

def Call.isAccepted (o : Call) : Bool :=
  o.jobs.all (1 ≤ ·)

def call (c : Config) (o : Call) : Except ConfigError Config :=
  c.override o.types o.jobs

/-- The configuration in force after a call: the one it gives, or else the one before. -/
def next (c : Config) (o : Call) : Config :=
  match c.call o with
  | .ok c' => c'
  | .error _ => c

def inForce (c : Config) (os : List Call) : Config :=
  os.foldl next c

theorem inForce_cons (c : Config) (o : Call) (os : List Call) :
    c.inForce (o :: os) = (c.next o).inForce os :=
  rfl

theorem inForce_concat (c : Config) (os : List Call) (o : Call) :
    c.inForce (os ++ [o]) = (c.inForce os).next o := by
  simp [inForce]

def givenJobs (os : List Call) : List Int :=
  (os.filter (·.isAccepted)).filterMap (·.jobs)

/-- What holds of the configurations in force, from a loaded one on. -/
structure Keeps (c : Config) (os : List Call) : Prop where
  document {bytes : List UInt8} (h : ofBytes bytes = .ok c) : ∃ cs members,
    Text.Utf8.decode bytes = .ok cs ∧ Json.read (Text.normalizeLines cs) = .ok (.obj members) ∧
      SaidBy members c
  jobs_pos : 1 ≤ (c.inForce os).jobs
  jobs : ((c.inForce os).jobs : Int) = (givenJobs os).getLastD c.jobs
  nodup : (c.inForce os).contextTypes.Nodup
  types (s : String) : s ∈ (c.inForce os).contextTypes ↔
    s ∈ c.contextTypes ∨ ∃ o ∈ os, o.isAccepted ∧ s ∈ o.types
  nonempty : (∀ s ∈ (c.inForce os).contextTypes, s ≠ "") ↔ ∀ o ∈ os, o.isAccepted → "" ∉ o.types
  refused (o : Call) : (∃ e, (c.inForce os).call o = .error e) ↔ ∃ n, o.jobs = some n ∧ n < 1
  unchanged {o : Call} {e : ConfigError} (h : (c.inForce os).call o = .error e) :
    e = .jobs ∧ c.inForce (os ++ [o]) = c.inForce os
  accepted : c.inForce os = c.inForce (os.filter (·.isAccepted))

variable {c : Config} {os : List Call} {o : Call}

theorem call_cases (c : Config) (o : Call) :
    (o.isAccepted ∧ ∃ c', c.call o = .ok c' ∧ c'.contextTypes = addNew c.contextTypes o.types ∧
        (c'.jobs : Int) = o.jobs.getD c.jobs) ∨
      (o.isAccepted = false ∧ c.call o = .error .jobs) := by
  obtain ⟨types, jobs⟩ := o
  unfold call override Call.isAccepted
  cases jobs with
  | none => simp
  | some n =>
    by_cases hn : 1 ≤ n
    · have hpos : 1 ≤ n.toNat := by omega
      simp [hn, hpos]
      omega
    · have hneg : ¬ 1 ≤ n.toNat := by omega
      simp [hn, hneg]

theorem isAccepted_eq_false_iff : o.isAccepted = false ↔ ∃ n, o.jobs = some n ∧ n < 1 := by
  unfold Call.isAccepted
  cases o.jobs <;> simp

theorem call_eq_error_iff : (∃ e, c.call o = .error e) ↔ o.isAccepted = false := by
  obtain ⟨haccepted, c', hc', -⟩ | ⟨hrefused, herror⟩ := c.call_cases o
  · simp [haccepted, hc']
  · simp [hrefused, herror]

theorem call_error {e : ConfigError} (h : c.call o = .error e) : e = .jobs := by
  obtain ⟨-, c', hc', -⟩ | ⟨-, herror⟩ := c.call_cases o
  · rw [hc'] at h
    cases h
  · rw [herror] at h
    exact (Except.error.inj h).symm

theorem next_of_refused (h : o.isAccepted = false) : c.next o = c := by
  obtain ⟨e, he⟩ := (call_eq_error_iff (c := c)).2 h
  rw [next, he]

theorem mem_next {s : String} :
    s ∈ (c.next o).contextTypes ↔ s ∈ c.contextTypes ∨ o.isAccepted ∧ s ∈ o.types := by
  obtain ⟨haccepted, c', hc', htypes, -⟩ | ⟨hrefused, -⟩ := c.call_cases o
  · simp [next, hc', htypes, mem_addNew, haccepted]
  · simp [next_of_refused hrefused, hrefused]

theorem nodup_next (h : c.contextTypes.Nodup) : (c.next o).contextTypes.Nodup := by
  obtain ⟨-, c', hc', htypes, -⟩ | ⟨hrefused, -⟩ := c.call_cases o
  · rw [next, hc', htypes]
    exact nodup_addNew h
  · rwa [next_of_refused hrefused]

theorem jobs_next : ((c.next o).jobs : Int) = (givenJobs [o]).getLastD c.jobs := by
  obtain ⟨haccepted, c', hc', -, hjobs⟩ | ⟨hrefused, -⟩ := c.call_cases o
  · rw [next, hc', hjobs]
    cases hgiven : o.jobs <;> simp [givenJobs, haccepted, hgiven]
  · simp [next_of_refused hrefused, givenJobs, hrefused]

theorem mem_inForce {s : String} : s ∈ (c.inForce os).contextTypes ↔
    s ∈ c.contextTypes ∨ ∃ o ∈ os, o.isAccepted ∧ s ∈ o.types := by
  induction os generalizing c with
  | nil => simp [inForce]
  | cons o os ih =>
    rw [inForce_cons, ih, mem_next]
    simp [or_assoc]

theorem nodup_inForce (h : c.contextTypes.Nodup) : (c.inForce os).contextTypes.Nodup := by
  induction os generalizing c with
  | nil => exact h
  | cons o os ih =>
    rw [inForce_cons]
    exact ih (nodup_next h)

theorem jobs_inForce : ((c.inForce os).jobs : Int) = (givenJobs os).getLastD c.jobs := by
  induction os generalizing c with
  | nil => rfl
  | cons o os ih =>
    have hsplit : givenJobs (o :: os) = givenJobs [o] ++ givenJobs os := by
      rw [givenJobs, givenJobs, givenJobs, ← List.filterMap_append, ← List.filter_append,
        List.singleton_append]
    rw [inForce_cons, ih, jobs_next, hsplit]
    simp [List.getLastD_eq_getLast?, Option.getD_or]

theorem inForce_accepted : c.inForce os = c.inForce (os.filter (·.isAccepted)) := by
  induction os generalizing c with
  | nil => rfl
  | cons o os ih =>
    rw [inForce_cons, ih]
    by_cases haccepted : o.isAccepted
    · rw [List.filter_cons_of_pos haccepted]
      rfl
    · rw [List.filter_cons_of_neg haccepted, next_of_refused (by simpa using haccepted)]

/-- Whatever calls follow, the types in force are the loaded ones and those of accepted calls, and
the number of workers is the last one given and accepted. -/
theorem keeps_of_isLoaded (h : c.IsLoaded) (os : List Call) : c.Keeps os where
  document hc := by
    obtain ⟨cs, members, hcs, hv, hsaid, -⟩ := saidBy_of_ofBytes hc
    exact ⟨cs, members, hcs, hv, hsaid⟩
  jobs_pos := (c.inForce os).jobs_pos
  jobs := jobs_inForce
  nodup := nodup_inForce h.nodup
  types _ := mem_inForce
  nonempty := by
    have hempty : "" ∈ (c.inForce os).contextTypes ↔ ∃ o ∈ os, o.isAccepted ∧ "" ∈ o.types :=
      mem_inForce.trans (or_iff_right h.not_mem_empty)
    rw [List.forall_mem_ne', hempty]
    simp only [not_exists, not_and]
  refused _ := call_eq_error_iff.trans isAccepted_eq_false_iff
  unchanged he := by
    have hrefused := call_eq_error_iff.1 ⟨_, he⟩
    rw [inForce_concat, next_of_refused hrefused]
    exact ⟨call_error he, rfl⟩
  accepted := inForce_accepted

theorem keeps_of_refused_call :
    let bytes := ("\x7b\"format\": \"callspec-config\", \"version\": 0, \"jobs\": 4, " ++
      "\"context_types\": [\"Py\", \"Ctx\", \"Py\"]\x7d").toUTF8.toList
    let os : List Call := [⟨["Runtime", "Py"], some 3⟩, ⟨["Lost"], some 0⟩, ⟨["Late"], none⟩]
    ∃ c, c.IsLoaded ∧ ofBytes bytes = .ok c ∧ c.contextTypes = ["Py", "Ctx"] ∧ c.jobs = 4 ∧
      (c.inForce os).contextTypes = ["Py", "Ctx", "Runtime", "Late"] ∧
      (c.inForce os).jobs = 3 ∧ c.Keeps os := by
  intro bytes os
  have hread : (ofBytes bytes).toOption.map
      (fun c => (c.contextTypes, c.jobs, (c.inForce os).contextTypes, (c.inForce os).jobs)) =
        some (["Py", "Ctx"], 4, ["Py", "Ctx", "Runtime", "Late"], 3) := by decide +kernel
  obtain ⟨c, hc, hread⟩ := Option.map_eq_some_iff.1 hread
  obtain ⟨htypes, hjobs, hlast⟩ : c.contextTypes = ["Py", "Ctx"] ∧ c.jobs = 4 ∧
      (c.inForce os).contextTypes = ["Py", "Ctx", "Runtime", "Late"] ∧
        (c.inForce os).jobs = 3 := by simpa using hread
  have hc := eq_ok_of_toOption hc
  exact ⟨c, .document hc, hc, htypes, hjobs, hlast.1, hlast.2, keeps_of_isLoaded (.document hc) os⟩

theorem not_nonempty_of_call :
    ¬ ∀ s ∈ (standard.inForce [⟨[""], none⟩]).contextTypes, s ≠ "" := by
  decide

end Config

end NativeBinding
