import NativeBinding.Proofs.Body.Complete
import NativeBinding.Proofs.Body.Reach
import NativeBinding.Proofs.Grammar.Pieces

/-!
Text that goes on otherwise. The cells before a live brace or semicolon stay as they are where white
space, a closing brace or a comment comes instead, unless the comment comes right after a slash.
-/

namespace NativeBinding.Body

open Text Grammar

/-- Characters that a seam may start with: none of them goes on with a character literal or a raw
string. -/
def isBland (c : Char) : Bool :=
  c == '}' || c == '/' || isGapSpace c

theorem isBland_cases {c : Char} (h : isBland c) :
    c = '}' ∨ c = '/' ∨ c = ' ' ∨ c = '\t' ∨ c = '\x0c' ∨ c = '\r' ∨ c = '\n' := by
  simpa [isBland, isGapSpace, or_assoc] using h

theorem not_of_isBland {p : Char → Bool} {c : Char} (h : isBland c)
    (hp : ['}', '/', ' ', '\t', '\x0c', '\r', '\n'].all fun d => !p d) : p c = false := by
  rw [List.all_eq_true] at hp
  rcases isBland_cases h with rfl | rfl | rfl | rfl | rfl | rfl | rfl <;> simpa using hp _ (by simp)

theorem CharText.getLast? {w : List Char} (h : CharText w) : w.getLast? = some '\'' := by
  cases h with
  | plain | escape | byte => rfl
  | @braced run =>
    rw [show '\\' :: 'u' :: '{' :: (run ++ ['}', '\'']) =
      ('\\' :: 'u' :: '{' :: (run ++ ['}'])) ++ ['\''] by simp, List.getLast?_concat]

section

variable {prev : Option Char} {w rest z : List Char} {c d : Char}

theorem charLength_before_seam (h : charLength (w ++ d :: rest) = none) (hc : isBland c)
    (hz : z.head? ≠ some '\'') : charLength (w ++ c :: z) = none := by
  cases hsome : charLength (w ++ c :: z) with
  | none => rfl
  | some m =>
    exfalso
    obtain ⟨htext, hle⟩ := charText_of_charLength hsome
    have hlen := List.length_take_of_le hle
    rcases Nat.lt_or_ge w.length m with hm | hm
    · obtain ⟨k, rfl⟩ := Nat.exists_eq_add_of_lt hm
      have htake : (w ++ c :: z).take (w.length + k + 1) = w ++ c :: z.take k := by
        rw [List.take_append, List.take_of_length_le (by omega),
          show w.length + k + 1 - w.length = k + 1 by omega, List.take_succ_cons]
      rw [htake] at htext hlen
      -- The literal ends at the seam, right after it, or later.
      rcases k with _ | _ | k
      · have hlast := htext.getLast?
        rw [List.take_zero, List.getLast?_concat] at hlast
        cases hlast
        exact absurd hc (by decide)
      · cases z with
        | nil => simp at hlen
        | cons e z =>
          have hlast := htext.getLast?
          rw [List.take_succ_cons, List.take_zero, show w ++ [c, e] = w ++ [c] ++ [e] by simp,
            List.getLast?_concat] at hlast
          exact hz hlast
      · have hmem : c ∈
            (w ++ c :: z.take (k + 2)).take ((w ++ c :: z.take (k + 2)).length - 2) := by
          rw [hlen, List.take_append, List.take_of_length_le (by omega),
            show w.length + (k + 1 + 1) + 1 - 2 - w.length = k + 1 by omega, List.take_succ_cons]
          simp
        rcases htext.mem_take hmem with hhex | hother
        · exact absurd hhex (by simp [not_of_isBland hc (p := isHex) (by decide)])
        · have hnot : ['\\', 'x', 'u', '{', '_'].contains c = false :=
            not_of_isBland (p := fun e => ['\\', 'x', 'u', '{', '_'].contains e) hc (by decide)
          rw [List.contains_iff_mem.2 hother] at hnot
          cases hnot
    · have htake : (w ++ c :: z).take m = (w ++ d :: rest).take m := by
        rw [List.take_append_of_le_length hm, List.take_append_of_le_length hm]
      rw [charLength_of_take hsome htake] at h
      cases h

/-- A region that ends before a seam, if it is no line comment that a line feed ends there. -/
theorem inertLength_at_seam {n : Nat} (h : inertLength prev (w ++ d :: rest) = some n)
    (hn : n ≤ w.length) (hd : d ≠ '\n') : inertLength prev (w ++ c :: z) = some n := by
  have htake : (w ++ d :: rest).take n = (w ++ c :: z).take n := by
    rw [List.take_append_of_le_length hn, List.take_append_of_le_length hn]
  refine inertLength_of_take h (by simp; omega) htake fun hline => ?_
  rcases Nat.lt_or_eq_of_le hn with hlt | rfl
  · rw [List.getElem?_append_left hlt, List.getElem?_append_left hlt]
  · -- The comment would not end before `d`.
    exfalso
    obtain ⟨v, hv⟩ : ∃ v, w ++ d :: rest = '/' :: '/' :: v := by
      refine ⟨(w ++ d :: rest).drop 2, ?_⟩
      conv => lhs; rw [← List.take_append_drop 2 (w ++ d :: rest), hline]
      rfl
    have hnext : (w ++ d :: rest)[w.length]? = some d := by simp
    rw [hv] at h hnext
    have hlen : 2 + (v.takeWhile (· != '\n')).length = w.length := Option.some.inj h
    rw [← hlen, Nat.add_comm, List.getElem?_cons_succ, List.getElem?_cons_succ,
      ← List.head?_drop, drop_length_takeWhile] at hnext
    have hstop := List.head?_dropWhile_not (· != '\n') v
    rw [hnext] at hstop
    exact hd (by simpa using hstop)

theorem cellsFrom_before_seam {as bs : List Cell} (hd : d ≠ '\n')
    (h : cellsFrom 0 prev (w ++ d :: rest) = as ++ ⟨d, false⟩ :: bs) (hlen : as.length = w.length)
    (hc : isBland c) (hz : z.head? ≠ some '\'')
    (hslash : c = '/' → as.getLast? ≠ some ⟨'/', false⟩) :
    cellsFrom 0 prev (w ++ c :: z) = as ++ cellsFrom 0 (lastOf prev w) (c :: z) := by
  refine cellsFrom_before (fun v hv => rawLength_before hv ?_ ?_)
    (fun v hv => charLength_before_seam hv hc hz) ?_
    (fun hregion hn => inertLength_at_seam hregion hn hd) h hlen ?_
  · exact ne_of_holds hc (by decide)
  · exact ne_of_holds hc (by decide)
  · simpa using ne_of_holds hc (by decide)
  · intro hlast hhead
    exact hslash (Option.some.inj hhead) hlast

end

theorem not_live_slashes {n : Nat} {prev : Option Char} {text : List Char} {as bs : List Cell} :
    cellsFrom n prev text ≠ as ++ ⟨'/', false⟩ :: ⟨'/', false⟩ :: bs := by
  intro h
  induction as generalizing n prev text with
  | nil =>
    cases text with
    | nil => simp [cellsFrom] at h
    | cons d text =>
      cases n with
      | succ n => simp [cellsFrom] at h
      | zero =>
        rw [cellsFrom] at h
        split at h
        · simp at h
        · next hlive =>
          obtain ⟨hd, htail⟩ := List.cons.inj h
          cases hd
          have hchars := congrArg (List.map (·.char)) htail
          rw [cellsFrom_char, List.map_cons] at hchars
          subst hchars
          refine hlive (1 + ((bs.map (·.char)).takeWhile (· != '\n')).length) ?_
          rw [inertLength]
          congr 1
          omega
  | cons a as ih =>
    cases text with
    | nil => simp [cellsFrom] at h
    | cons d text =>
      cases n with
      | succ n => exact ih (List.cons.inj h).2
      | zero =>
        rw [cellsFrom] at h
        split at h <;> exact ih (List.cons.inj h).2

section

variable {w g rest : List Char}

theorem Complete.cells_spaces (h : Complete w) (hne : g ≠ []) (hg : ∀ c ∈ g, isGapSpace c)
    (hrest : rest.head? ≠ some '\'') :
    cellsFrom 0 none (w ++ (g ++ rest)) =
      cells w ++ (run false g ++ cellsFrom 0 (lastOf (lastOf none w) g) rest) := by
  obtain ⟨c, g, rfl⟩ := List.exists_cons_of_ne_nil hne
  have hc := hg c List.mem_cons_self
  have hnext : (g ++ rest).head? ≠ some '\'' := by
    cases g with
    | nil => exact hrest
    | cons d g =>
      have hd := hg d (by simp)
      rw [List.cons_append, List.head?_cons, ne_eq, Option.some.injEq]
      exact ne_of_holds hd (by decide)
  have hslash : c = '/' → (cells w).getLast? ≠ some ⟨'/', false⟩ :=
    fun heq => absurd heq (ne_of_holds hc (by decide))
  have hlen := congrArg List.length (cells_char w)
  rw [List.length_map] at hlen
  rw [List.cons_append, cellsFrom_before_seam (by decide) (h.ends []) hlen (by simp [isBland, hc])
    hnext hslash, ← List.cons_append,
    cellsFrom_plain fun d hd => isPlain_of_isGapSpace (hg d hd)]

theorem Complete.cells_append (h : Complete w) (hg : ∀ c ∈ g, isGapSpace c) :
    cells (w ++ g) = cells w ++ run false g := by
  by_cases hne : g = []
  · simp [hne]
  · have hcells : cellsFrom 0 none (w ++ (g ++ [])) = _ := h.cells_spaces hne hg nofun
    rwa [List.append_nil, cellsFrom, List.append_nil] at hcells

theorem depthAfter_spaces (hg : ∀ c ∈ g, isGapSpace c) (d : Nat) :
    depthAfter d (run false g) = some d := by
  have hnot {c : Char} (hc : isGapSpace c = false) : c ∉ g := fun hmem => by
    rw [hg c hmem] at hc
    cases hc
  exact depthAfter_live (hnot (by decide)) (hnot (by decide)) d

theorem Complete.append (h : Complete w) (hg : ∀ c ∈ g, isGapSpace c) : Complete (w ++ g) := by
  refine ⟨fun rest => ?_, ?_⟩
  · by_cases hne : g = []
    · simpa [hne] using h.ends rest
    · rw [List.append_assoc, h.cells_spaces hne hg (by simp), h.cells_append hg, List.append_assoc,
        cellsFrom_plain_cons (by decide)]
  · rw [h.cells_append hg, depthAfter_append h.balanced, depthAfter_spaces hg]

theorem Complete.maskFrom_append (h : Complete w) (hg : ∀ c ∈ g, isGapSpace c) (b : Bool) :
    maskFrom b none (w ++ g) = maskFrom b none w ++ g := by
  have hnext : ((run false g).head?.any fun c => isWord c.char) = false := by
    cases g with
    | nil => rfl
    | cons c g =>
      rw [run_cons, List.head?_cons, Option.any_some]
      rcases isGapSpace_cases (hg c List.mem_cons_self) with rfl | rfl | rfl | rfl | rfl <;> decide
  have hcells : cellsFrom 0 none (w ++ g) = cells w ++ run false g := h.cells_append hg
  rw [maskFrom, hcells]
  obtain ⟨b', hb'⟩ := maskCells_append h.balanced hnext b none
  have hquiet := maskCells_quiet (fun c hc => isQuiet_of_isGapSpace (hg c hc)) b'
    (lastOf none ((cells w).map (·.char))) []
  rw [List.append_nil, maskCells, List.append_nil] at hquiet
  rw [hb', hquiet]
  rfl

end

end NativeBinding.Body
