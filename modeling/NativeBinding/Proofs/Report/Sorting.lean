import NativeBinding.Proofs.Report.Ties

/-!
Sorting of reports. A sorted list of diagnostics is determined by what it holds at each place, in
order. Batches that are pairwise interchangeable hold the same at each place in whatever order they
arrive, so they are sorted into the same report.
-/

namespace NativeBinding

namespace Diagnostic

theorem ordered_trans (a b c : Diagnostic) (hab : a.ordered b) (hbc : b.ordered c) :
    a.ordered c := by
  simp only [ordered] at *
  grind

theorem ordered_total (a b : Diagnostic) : a.ordered b || b.ordered a := by
  simp only [ordered]
  grind

theorem ordered_of_key_eq {a b : Diagnostic} (h : a.key = b.key) : a.ordered b := by
  simp [ordered, h]

theorem key_eq_of_ordered {a b : Diagnostic} (hab : a.ordered b) (hba : b.ordered a) :
    a.key = b.key := by
  simp only [ordered] at *
  grind

theorem filter_sort (ds : List Diagnostic) (k : String × Int × Int) :
    (sort ds).filter (·.key = k) = ds.filter (·.key = k) := by
  have hsorted : (ds.filter (·.key = k)).Pairwise fun a b => a.ordered b := by
    refine List.pairwise_of_forall_mem_list fun a ha b hb => ordered_of_key_eq ?_
    simp only [List.mem_filter, decide_eq_true_eq] at ha hb
    exact ha.2.trans hb.2.symm
  have hsub : (ds.filter (·.key = k)).Sublist (sort ds) :=
    List.sublist_mergeSort ordered_trans ordered_total hsorted List.filter_sublist
  have hfilter := hsub.filter (·.key = k)
  rw [List.filter_filter] at hfilter
  simp only [Bool.and_self] at hfilter
  exact (hfilter.eq_of_length (((List.mergeSort_perm ds ordered).filter _).length_eq.symm)).symm

/-- A sorted list is determined by what it holds at each place. -/
theorem eq_of_sorted {as bs : List Diagnostic} (has : as.Pairwise fun a b => a.ordered b)
    (hbs : bs.Pairwise fun a b => a.ordered b)
    (h : ∀ k, as.filter (·.key = k) = bs.filter (·.key = k)) : as = bs := by
  induction as generalizing bs with
  | nil =>
    cases bs with
    | nil => rfl
    | cons b bs => simpa using h b.key
  | cons a as ih =>
    cases bs with
    | nil => simpa using h a.key
    | cons b bs =>
      obtain ⟨ha, has'⟩ := List.pairwise_cons.1 has
      obtain ⟨hb, hbs'⟩ := List.pairwise_cons.1 hbs
      -- Each head is in the other list, so neither can stand strictly before the other.
      have hab : a.ordered b := by
        have hmem : b ∈ (a :: as).filter (·.key = b.key) := by simp [h b.key]
        rcases List.mem_cons.1 (List.mem_filter.1 hmem).1 with rfl | hmem
        · exact ordered_of_key_eq rfl
        · exact ha b hmem
      have hba : b.ordered a := by
        have hmem : a ∈ (b :: bs).filter (·.key = a.key) := by simp [← h a.key]
        rcases List.mem_cons.1 (List.mem_filter.1 hmem).1 with rfl | hmem
        · exact ordered_of_key_eq rfl
        · exact hb a hmem
      have hkey := key_eq_of_ordered hab hba
      have hheads := h a.key
      simp only [List.filter_cons, decide_true, if_true, hkey.symm, List.cons.injEq] at hheads
      obtain ⟨rfl, -⟩ := hheads
      suffices htails : ∀ k, as.filter (·.key = k) = bs.filter (·.key = k) by
        rw [ih has' hbs' htails]
      intro k
      have htails := h k
      simp only [List.filter_cons] at htails
      split at htails
      · exact List.tail_eq_of_cons_eq htails
      · exact htails

theorem sort_eq_of_filter_eq {as bs : List Diagnostic}
    (h : ∀ k, as.filter (·.key = k) = bs.filter (·.key = k)) : sort as = sort bs := by
  refine eq_of_sorted (List.pairwise_mergeSort ordered_trans ordered_total as)
    (List.pairwise_mergeSort ordered_trans ordered_total bs) fun k => ?_
  exact (filter_sort as k).trans ((h k).trans (filter_sort bs k).symm)

theorem sort_cons (a : Diagnostic) (ds : List Diagnostic) : sort (a :: ds) =
    (sort ds).filter (fun b => !a.ordered b) ++ a :: (sort ds).filter (fun b => a.ordered b) := by
  obtain ⟨front, back, hcons, hsort, hfront⟩ :=
    List.mergeSort_cons ordered_trans ordered_total a ds
  have hsorted := List.pairwise_mergeSort ordered_trans ordered_total (a :: ds)
  rw [hcons] at hsorted
  have hback : ∀ b ∈ back, a.ordered b :=
    (List.pairwise_cons.1 (List.pairwise_append.1 hsorted).2.1).1
  have hnone : back.filter (fun b => !a.ordered b) = [] := by simpa using hback
  have hnone' : front.filter (fun b => a.ordered b) = [] := by simpa using hfront
  rw [sort, hcons, sort, hsort, List.filter_append, List.filter_append,
    List.filter_eq_self.2 hfront, List.filter_eq_self.2 hback, hnone, hnone', List.append_nil,
    List.nil_append]

theorem sort_sublist {as bs : List Diagnostic} (h : as.Sublist bs) :
    (sort as).Sublist (sort bs) := by
  induction h with
  | slnil => exact List.Sublist.refl _
  | @cons as bs b _ ih =>
    obtain ⟨front, back, hcons, hsort, -⟩ :=
      List.mergeSort_cons ordered_trans ordered_total b bs
    rw [sort, sort, hsort] at ih
    rw [sort, sort, hcons]
    exact ih.middle b
  | @cons_cons as bs a _ ih =>
    rw [sort_cons, sort_cons]
    exact (ih.filter _).append ((ih.filter _).cons_cons a)

end Diagnostic

theorem flatten_eq_of_perm {α : Type} {as bs : List (List α)} (h : as.Perm bs)
    (heq : ∀ a ∈ as, ∀ b ∈ as, a = [] ∨ b = [] ∨ a = b) : as.flatten = bs.flatten := by
  induction h with
  | nil => rfl
  | cons a _ ih =>
    rw [List.flatten_cons, List.flatten_cons,
      ih fun x hx y hy => heq x (List.mem_cons_of_mem _ hx) y (List.mem_cons_of_mem _ hy)]
  | swap a b l =>
    rcases heq a (by simp) b (by simp) with rfl | rfl | rfl <;> simp
  | trans h₁ _ ih₁ ih₂ =>
    rw [ih₁ heq, ih₂ fun x hx y hy => heq x (h₁.mem_iff.2 hx) y (h₁.mem_iff.2 hy)]

/-- Batches that are pairwise interchangeable may arrive in any order. -/
theorem sort_eq_of_arrivals {failures : List Diagnostic} {as bs : List (List Diagnostic)}
    (h : as.Perm bs) (hties : ∀ a ∈ as, ∀ b ∈ as, Interchangeable a b) :
    Diagnostic.sort (failures ++ as.flatten) = Diagnostic.sort (failures ++ bs.flatten) := by
  refine Diagnostic.sort_eq_of_filter_eq fun k => ?_
  rw [List.filter_append, List.filter_append, List.filter_flatten, List.filter_flatten]
  congr 1
  refine flatten_eq_of_perm (h.map _) fun x hx y hy => ?_
  obtain ⟨a, ha, rfl⟩ := List.mem_map.1 hx
  obtain ⟨b, hb, rfl⟩ := List.mem_map.1 hy
  exact hties a ha b hb k

end NativeBinding
