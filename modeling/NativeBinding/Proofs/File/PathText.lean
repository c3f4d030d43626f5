import NativeBinding.File.Path

/-!
The text of a path. What `Path.ofString` reads has no empty name, no name of one dot and no slash in
a name, and such a path is read back from its text: paths with one text are the same path.
-/

namespace NativeBinding

namespace Path

/-- The paths that can be written. -/
structure Plain (p : Path) : Prop where
  slashes : p.slashes ≤ 2
  ne_empty : ∀ name ∈ p.names, name ≠ ""
  ne_dot : ∀ name ∈ p.names, name ≠ "."
  no_slash : ∀ name ∈ p.names, '/' ∉ name.toList

theorem pieces_eq_splitOn (cs : List Char) : pieces cs = cs.splitOn '/' := by
  induction cs with
  | nil => simp [pieces]
  | cons c cs ih =>
    have hne := pieces_ne_nil cs
    rw [pieces, List.splitOn_cons_eq_if_modifyHead, ← ih]
    cases hp : pieces cs with
    | nil => exact absurd hp hne
    | cons p ps => by_cases hc : c == '/' <;> simp [hc]

theorem not_mem_of_mem_pieces {cs p : List Char} (h : p ∈ pieces cs) : '/' ∉ p := by
  induction cs generalizing p with
  | nil =>
    obtain rfl := List.mem_singleton.1 h
    exact List.not_mem_nil
  | cons c cs ih =>
    rw [pieces] at h
    split at h
    · next hnil => exact absurd hnil (pieces_ne_nil cs)
    · next q qs hpieces =>
      rw [hpieces] at ih
      split at h
      · rcases List.mem_cons.1 h with rfl | h
        · exact List.not_mem_nil
        · exact ih h
      · next hc =>
        rcases List.mem_cons.1 h with rfl | h
        · have hq := ih List.mem_cons_self
          simp only [List.mem_cons, not_or]
          exact ⟨fun hslash => hc (by simp [← hslash]), hq⟩
        · exact ih (List.mem_cons_of_mem _ h)

theorem plain_ofString (s : String) : (ofString s).Plain where
  slashes := by
    rw [ofString]
    dsimp only
    split <;> omega
  ne_empty name hname := by
    rintro rfl
    simp [ofString] at hname
  ne_dot name hname := by
    rintro rfl
    simp [ofString] at hname
  no_slash name hname := by
    obtain ⟨hname, -⟩ := List.mem_filter.1 hname
    obtain ⟨p, hp, rfl⟩ := List.mem_map.1 hname
    simpa using not_mem_of_mem_pieces hp

theorem splitOn_slashes (k : Nat) (cs : List Char) :
    (List.replicate k '/' ++ cs).splitOn '/' = List.replicate k [] ++ cs.splitOn '/' := by
  induction k with
  | zero => simp
  | succ k ih => simp [List.replicate_succ, List.splitOn_cons_eq_if_modifyHead, ih]

theorem toList_text {p : Path} (h : p ≠ ⟨0, []⟩) :
    p.text.toList =
      List.replicate p.slashes '/' ++ ['/'].intercalate (p.names.map String.toList) := by
  rw [text]
  split
  · next hdot =>
    obtain ⟨slashes, names⟩ := p
    simp_all
  · simp [String.toList_intercalate]

theorem takeWhile_slashes {names : List (List Char)} (hne : ∀ name ∈ names, name ≠ [])
    (hslash : ∀ name ∈ names, '/' ∉ name) (k : Nat) :
    (List.replicate k '/' ++ ['/'].intercalate names).takeWhile (· == '/') =
      List.replicate k '/' := by
  rw [List.takeWhile_append_of_pos (by simp)]
  suffices hhead : (['/'].intercalate names).takeWhile (· == '/') = [] by simp [hhead]
  cases names with
  | nil => rfl
  | cons name names =>
    have hname := hne name List.mem_cons_self
    have hno := hslash name List.mem_cons_self
    obtain ⟨c, cs, rfl⟩ := List.exists_cons_of_ne_nil hname
    simp only [List.mem_cons, not_or] at hno
    cases names <;> simp [List.intercalate_cons_cons, Ne.symm hno.1]

theorem Plain.ofString_text {p : Path} (h : p.Plain) : ofString p.text = p := by
  by_cases hdot : p = ⟨0, []⟩
  · subst hdot
    decide
  obtain ⟨k, names⟩ := p
  obtain ⟨hk, hempty, hname, hslash⟩ := h
  have hchars : ∀ cs ∈ names.map String.toList, cs ≠ [] ∧ '/' ∉ cs := by
    intro cs hcs
    obtain ⟨name, hmem, rfl⟩ := List.mem_map.1 hcs
    exact ⟨by simpa using hempty name hmem, hslash name hmem⟩
  have hslashes : ((Path.mk k names).text.toList.takeWhile (· == '/')).length = k := by
    rw [toList_text hdot, takeWhile_slashes (fun cs hcs => (hchars cs hcs).1)
      fun cs hcs => (hchars cs hcs).2]
    exact List.length_replicate
  have hpieces : (pieces (Path.mk k names).text.toList).map String.ofList =
      List.replicate k "" ++ if names = [] then [""] else names := by
    rw [pieces_eq_splitOn, toList_text hdot, splitOn_slashes]
    by_cases hnames : names = []
    · simp [hnames]
    · rw [List.splitOn_intercalate '/' (fun cs hcs => (hchars cs hcs).2) (by simpa using hnames)]
      simp [hnames, Function.comp_def]
  have hnames : names.filter (fun name => !name.isEmpty && name != ".") = names := by
    rw [List.filter_eq_self]
    intro name hmem
    simp [hempty name hmem, hname name hmem]
  rw [ofString]
  simp only [hslashes, hpieces, List.filter_append, Path.mk.injEq]
  refine ⟨if_pos hk, ?_⟩
  by_cases hnil : names = []
  · simp [hnil]
  · simp [hnil, hnames]

theorem ofString_eq_of_text_eq {s s' : String} (h : (ofString s).text = (ofString s').text) :
    ofString s = ofString s' := by
  rw [← (plain_ofString s).ofString_text, ← (plain_ofString s').ofString_text, h]

end Path

end NativeBinding
