import Mathlib.Data.List.Basic
import NativeBinding.Binding.Mark

/-!
Tables built without findings. Such a table holds every mark under its own name and nothing else,
so a question about a parameter is a question about the marks that name it.
-/

namespace NativeBinding.MarkTable

variable {known : List String} {receiver : Option String} {t t' : MarkTable} {m : ArgMark}
  {ms : List ArgMark}

theorem lookup_append_single (name key : String) (entries : List (String × ArgMark)) (m : ArgMark) :
    (entries ++ [(name, m)]).lookup key =
      (entries.lookup key).or (if key = name then some m else none) := by
  by_cases h : key = name
  · simp [List.lookup_append, h]
  · have hb : (key == name) = false := by simpa using h
    simp [List.lookup_append, List.lookup_cons, h, hb]

/-- A mark without findings was not there before and stands at the end now. -/
theorem add_of_no_findings (h : t.add known receiver m = (t', [])) :
    t.entries.lookup (unraw m.name) = none ∧ t'.entries = t.entries ++ [(unraw m.name, m)] := by
  simp only [add] at h
  split at h
  · simp at h
  · split at h
    · simp at h
    · next hnone =>
      refine ⟨hnone, ?_⟩
      rw [← (Prod.mk.inj h).1]

theorem addAll_cons_no_findings (h : t.addAll known receiver (m :: ms) = (t', [])) :
    ∃ t₁, t.add known receiver m = (t₁, []) ∧ t₁.addAll known receiver ms = (t', []) := by
  simp only [addAll, Prod.mk.injEq, List.append_eq_nil_iff] at h
  obtain ⟨ht, hadd, hrest⟩ := h
  exact ⟨(t.add known receiver m).1, Prod.ext rfl hadd, Prod.ext ht hrest⟩

theorem lookup_addAll_of_some (h : t.addAll known receiver ms = (t', [])) {key : String}
    {v : ArgMark} (hv : t.entries.lookup key = some v) : t'.entries.lookup key = some v := by
  induction ms generalizing t with
  | nil =>
    rw [addAll, Prod.mk.injEq] at h
    exact h.1 ▸ hv
  | cons m ms ih =>
    obtain ⟨t₁, hadd, hrest⟩ := addAll_cons_no_findings h
    apply ih hrest
    rw [(add_of_no_findings hadd).2, lookup_append_single, hv]
    rfl

theorem lookup_addAll_of_mem (h : t.addAll known receiver ms = (t', [])) (hm : m ∈ ms) :
    t'.entries.lookup (unraw m.name) = some m := by
  induction ms generalizing t with
  | nil => cases hm
  | cons m' ms ih =>
    obtain ⟨t₁, hadd, hrest⟩ := addAll_cons_no_findings h
    rcases List.mem_cons.1 hm with rfl | hm
    · apply lookup_addAll_of_some hrest
      obtain ⟨hnone, hentries⟩ := add_of_no_findings hadd
      rw [hentries, lookup_append_single, hnone]
      simp
    · exact ih hrest hm

theorem mem_of_lookup_addAll (h : t.addAll known receiver ms = (t', [])) {key : String}
    {v : ArgMark} (hv : t'.entries.lookup key = some v) :
    t.entries.lookup key = some v ∨ (v ∈ ms ∧ unraw v.name = key) := by
  induction ms generalizing t with
  | nil =>
    rw [addAll, Prod.mk.injEq] at h
    exact .inl (h.1 ▸ hv)
  | cons m ms ih =>
    obtain ⟨t₁, hadd, hrest⟩ := addAll_cons_no_findings h
    rcases ih hrest with hv₁ | ⟨hmem, hname⟩
    · rw [(add_of_no_findings hadd).2, lookup_append_single, Option.or_eq_some_iff] at hv₁
      rcases hv₁ with hv₁ | ⟨-, hv₁⟩
      · exact .inl hv₁
      · obtain ⟨hkey, rfl⟩ : key = unraw m.name ∧ m = v := by simpa using hv₁
        exact .inr ⟨List.mem_cons_self, hkey.symm⟩
    · exact .inr ⟨List.mem_cons_of_mem _ hmem, hname⟩

theorem find?_build_iff {params : List String} (h : build ms params receiver = (t', []))
    (name : String) : t'.find? name = some m ↔ m ∈ ms ∧ unraw m.name = unraw name := by
  constructor
  · intro hm
    rcases mem_of_lookup_addAll h hm with hv | hv
    · cases hv
    · exact hv
  · rintro ⟨hm, hname⟩
    rw [find?, ← hname]
    exact lookup_addAll_of_mem h hm

theorem add_findings_eq_nil_iff : (t.add known receiver m).2 = [] ↔
    unraw m.name ∈ known ∧ t.entries.lookup (unraw m.name) = none := by
  by_cases hknown : unraw m.name ∈ known
  · cases hlookup : t.entries.lookup (unraw m.name) <;> simp [add, hknown, hlookup]
  · simp [add, hknown]

theorem addAll_findings_eq_nil_iff : (t.addAll known receiver ms).2 = [] ↔
    (∀ m ∈ ms, unraw m.name ∈ known ∧ t.entries.lookup (unraw m.name) = none) ∧
      (ms.map fun m => unraw m.name).Nodup := by
  induction ms generalizing t with
  | nil => simp [addAll]
  | cons m ms ih =>
    have hcons : (t.addAll known receiver (m :: ms)).2 = [] ↔
        (t.add known receiver m).2 = [] ∧
          ((t.add known receiver m).1.addAll known receiver ms).2 = [] := by
      simp [addAll]
    rw [hcons]
    by_cases hadd : (t.add known receiver m).2 = []
    · have hentries := (add_of_no_findings (Prod.ext rfl hadd)).2
      rw [ih, hentries]
      rw [add_findings_eq_nil_iff] at hadd ⊢
      simp only [lookup_append_single, Option.or_eq_none_iff, ite_eq_right_iff,
        List.forall_mem_cons, List.map_cons, List.nodup_cons, List.mem_map, not_exists, not_and]
      grind
    · refine iff_of_false (fun h => hadd h.1) fun h => hadd ?_
      exact add_findings_eq_nil_iff.2 (h.1 m List.mem_cons_self)

theorem build_findings_eq_nil_iff {params : List String} : (build ms params receiver).2 = [] ↔
    (∀ m ∈ ms, unraw m.name ∈ params.map unraw) ∧ (ms.map fun m => unraw m.name).Nodup := by
  simp [build, addAll_findings_eq_nil_iff]

theorem roleOf_build_iff {params : List String} (h : build ms params receiver = (t', []))
    (name : String) {r : Role} (hr : r ≠ .positional) :
    t'.roleOf name = r ↔ ∃ m ∈ ms, unraw m.name = unraw name ∧ m.role = r := by
  constructor
  · intro hrole
    rw [roleOf] at hrole
    cases hfind : t'.find? name with
    | none => exact absurd (by simpa [hfind] using hrole.symm) hr
    | some m =>
      obtain ⟨hm, hname⟩ := (find?_build_iff h name).1 hfind
      exact ⟨m, hm, hname, by simpa [hfind] using hrole⟩
  · rintro ⟨m, hm, hname, hrole⟩
    rw [roleOf, (find?_build_iff h name).2 ⟨hm, hname⟩]
    exact hrole

end NativeBinding.MarkTable
