import NativeBinding.Proofs.Body.Reach
import NativeBinding.Proofs.Grammar.Masked

/-!
Text that leads to a brace. Where a text is read as it stands up to the brace of a body, the cells
before the brace are the same whatever stands in that body.
-/

namespace NativeBinding.Grammar

open Text Body

/-- Up to a brace, the cells of a text do not depend on what follows the brace. -/
structure Leads (prev : Option Char) (u : List Char) (as : List Cell) (prev' : Option Char) :
    Prop where
  length : as.length = u.length
  cells (rest : List Char) :
    cellsFrom 0 prev (u ++ '{' :: rest) = as ++ cellsFrom 0 prev' ('{' :: rest)

namespace Leads

variable {prev prev' : Option Char} {u : List Char} {as : List Cell} {n : Nat}

theorem nil (prev : Option Char) : Leads prev [] [] prev :=
  ⟨rfl, fun _ => rfl⟩

theorem append {bs : List Cell} {prev₁ : Option Char} (hn : n ≤ u.length)
    (h : Leads prev₁ (u.drop n) as prev') (hlen : bs.length = n)
    (hcells : ∀ rest, cellsFrom 0 prev (u ++ '{' :: rest) =
      bs ++ cellsFrom 0 prev₁ (u.drop n ++ '{' :: rest)) :
    Leads prev u (bs ++ as) prev' := by
  refine ⟨?_, fun rest => ?_⟩
  · rw [List.length_append, h.length, hlen, List.length_drop]
    omega
  · rw [hcells, h.cells, List.append_assoc]

end Leads

section

variable {prev prev' : Option Char} {u rest : List Char} {as : List Cell} {n : Nat}

theorem take_of_leading {c : Char} (hn : n ≤ u.length) (rest : List Char) :
    (u ++ c :: rest).take n = u.take n :=
  List.take_append_of_le_length hn

theorem drop_of_leading {c : Char} (hn : n ≤ u.length) (rest : List Char) :
    (u ++ c :: rest).drop n = u.drop n ++ c :: rest :=
  List.drop_append_of_le_length hn

theorem Leads.piece {k : Kind} (hk : k ≠ .terminal .initializer)
    (hlength : k.length (u ++ '{' :: rest) = some n) (hn : n ≤ u.length)
    (hcells : ∀ rest', k.length (u ++ '{' :: rest') = some n →
      cellsFrom 0 prev (u ++ '{' :: rest') = run k.isRegion ((u ++ '{' :: rest').take n) ++
        cellsFrom 0 (lastOf prev ((u ++ '{' :: rest').take n)) ((u ++ '{' :: rest').drop n))
    (h : Leads (lastOf prev (u.take n)) (u.drop n) as prev') :
    ∃ bs, Leads prev u (bs ++ as) prev' := by
  have hcells (rest' : List Char) (hlength : k.length (u ++ '{' :: rest') = some n) :
      cellsFrom 0 prev (u ++ '{' :: rest') =
        run k.isRegion (u.take n) ++
          cellsFrom 0 (lastOf prev (u.take n)) (u.drop n ++ '{' :: rest') := by
    have := hcells rest' hlength
    rwa [take_of_leading hn, drop_of_leading hn] at this
  have halike (rest' : List Char) : Alike prev (u ++ '{' :: rest) (u ++ '{' :: rest') := by
    have hsplit := hcells rest hlength
    rw [h.cells, cellsFrom_brace, ← List.append_assoc] at hsplit
    refine alike_before_brace hsplit ?_ rest'
    rw [List.length_append, length_run, h.length, List.length_take_of_le hn, List.length_drop]
    omega
  refine ⟨run k.isRegion (u.take n), h.append hn ?_ fun rest' => hcells rest' ?_⟩
  · rw [length_run, List.length_take_of_le hn]
  · rw [← Kind.length_alike (halike rest') k hk, hlength]

theorem Leads.gap {g : Gap} (hg : g.length (u ++ '{' :: rest) = some n) (hn : n ≤ u.length)
    (h : Leads (lastOf prev (u.take n)) (u.drop n) as prev') :
    ∃ bs, Leads prev u (bs ++ as) prev' :=
  Leads.piece (k := .gap g) nofun hg hn (fun _ hg' => Gap.cells hg' prev) h

theorem Terminal.Apart.leading {t : Terminal} {v : List Char} (h : t.Apart (v ++ '{' :: rest))
    (rest' : List Char) : t.Apart (v ++ '{' :: rest') := by
  have hhead : (v ++ '{' :: rest').head? = (v ++ '{' :: rest).head? := by
    cases v <;> rfl
  rw [Apart, opensRaw, hhead]
  exact h

theorem Terminal.Apart.alike {t : Terminal} {u v : List Char} (halike : Alike prev u v)
    (hn : t.lexemeLength u = some n) (h : t.Apart (v.drop n)) : t.Apart (u.drop n) := by
  have hhead (ht : t = .ident ∨ t = .lifetime) : (u.drop n).head? = (v.drop n).head? := by
    refine (halike.agree.drop fun hmem => ?_).head?_eq
    rcases ht with rfl | rfl
    · obtain ⟨⟨raw, name, htext, hraw, -, hname⟩, -⟩ := identLength_spec hn
      rw [htext] at hmem
      rcases List.mem_append.1 hmem with hmem | hmem
      · rcases hraw with rfl | rfl <;> simp at hmem
      · exact absurd (hname _ hmem) (by decide)
    · obtain ⟨⟨name, htext, -, hname⟩, -⟩ := lifetimeLength_spec hn
      rw [htext] at hmem
      rcases List.mem_cons.1 hmem with hmem | hmem
      · exact absurd hmem (by decide)
      · exact absurd (hname _ hmem) (by decide)
  refine ⟨fun ht => ?_, fun ht => ?_⟩
  · rw [opensRaw, hhead ht]
    exact h.1 ht
  · rw [hhead (Or.inr ht)]
    exact h.2 ht

theorem Leads.lexeme {t : Terminal} (ht : t ≠ .initializer)
    (hlength : t.lexemeLength (u ++ '{' :: rest) = some n) (hn : n ≤ u.length)
    (happart : t.Apart (u.drop n ++ '{' :: rest))
    (h : Leads (lastOf prev (u.take n)) (u.drop n) as prev') :
    ∃ bs, Leads prev u (bs ++ as) prev' := by
  refine Leads.piece (k := .terminal t) (by simpa using ht) hlength hn ?_ h
  intro rest' hlength'
  refine Terminal.cells ht hlength' ?_ prev
  rw [drop_of_leading hn]
  exact happart.leading rest'

theorem Leads.initializer {w v : List Char} (hcomplete : Complete w)
    (hprev : prev.any isWord = false) {prev₁ : Option Char} (h : Leads prev₁ (';' :: v) as prev') :
    ∃ bs, Leads prev (w ++ ';' :: v) (bs ++ as) prev' := by
  have hprev : prev.any isWord = (none : Option Char).any isWord := hprev
  have hlen := congrArg List.length (cells_char w)
  rw [List.length_map] at hlen
  refine ⟨Body.cells w, ?_, fun rest => ?_⟩
  · rw [List.length_append, List.length_append, h.length, hlen]
  · have hcells := h.cells rest
    rw [List.cons_append, cellsFrom_semicolon] at hcells
    rw [List.append_assoc, List.cons_append, cellsFrom_congr hprev, hcomplete.ends, hcells,
      List.append_assoc]

end

/-- From `p` on, `u` closes the quotes, comments and braces of every initializer among some tokens.
What the mask makes of the text does not count. -/
def Closes (p : Position) (u : List Char) (ts : List Token) : Prop :=
  ∀ t ∈ ts, t.kind = .initializer → ∀ v w, u = v ++ w → Position.past p v = t.start →
    Complete (w.take t.text.toList.length)

section

variable {p : Position} {u : List Char} {t : Token} {ts : List Token}

theorem Closes.tail (h : Closes p u (t :: ts)) : Closes p u ts :=
  fun t ht => h t (List.mem_cons_of_mem _ ht)

theorem Closes.append {v w : List Char} (h : Closes p (v ++ w) ts) :
    Closes (Position.past p v) w ts := by
  intro t ht hkind v' w' hw hplace
  refine h t ht hkind (v ++ v') w' (by rw [hw, List.append_assoc]) ?_
  rw [past_append, hplace]

theorem Closes.drop (h : Closes p u ts) (n : Nat) :
    Closes (Position.past p (u.take n)) (u.drop n) ts := by
  rw [← List.take_append_drop n u] at h
  exact h.append

theorem Closes.head {w : List Char} (h : Closes p u (tokenAt .initializer p w :: ts)) :
    Complete (u.take w.length) := by
  have := h _ List.mem_cons_self rfl [] u rfl rfl
  rwa [tokenAt_text] at this

end

section

variable {s s' : State} {p p' : Position} {prev : Option Char} {before : Option Token}
  {cs cs' rest : List Char} {ts : List Token}

theorem Reads.leads (h : Reads s p cs ts s' p' cs') {u : List Char} (hcs : cs = u ++ '{' :: rest)
    (hlen : cs'.length = rest.length + 1) (hhead : cs'.head? = some '{')
    (hbeside : Beside s before p prev cs) (hcloses : Closes p u ts) :
    ∃ as prev', Leads prev u as prev' := by
  induction h generalizing before prev u with
  | done =>
    have := congrArg List.length hcs
    rw [List.length_append, List.length_cons] at this
    obtain rfl : u = [] := List.eq_nil_of_length_eq_zero (by omega)
    exact ⟨[], prev, .nil prev⟩
  | @gap s s' p p' cs cs' us n hscan hrest ih =>
    obtain ⟨g, hg⟩ := scan_gap hscan
    have hn : n ≤ u.length := by
      have := hrest.length_le
      simp only [hcs, List.length_drop, List.length_append, List.length_cons] at this
      omega
    subst hcs
    obtain ⟨as, prev', h⟩ := ih (drop_of_leading hn rest) hlen hhead (hbeside.gap hg)
      (by rw [take_of_leading hn]; exact hcloses.drop n)
    rw [take_of_leading hn] at h
    obtain ⟨bs, hleads⟩ := h.gap hg hn
    exact ⟨_, prev', hleads⟩
  | @lexeme s s₁ s' p p' cs cs' us k n hscan hfeed hrest ih =>
    obtain ⟨hmem, hlength⟩ := scan_lexeme_kind hscan
    have hn : n ≤ u.length := by
      have := hrest.length_le
      simp only [hcs, List.length_drop, List.length_append, List.length_cons] at this
      omega
    subst hcs
    obtain ⟨as, prev', h⟩ := ih (drop_of_leading hn rest) hlen hhead
      (Beside.lexeme hscan hfeed prev) (by rw [take_of_leading hn]; exact hcloses.tail.drop n)
    rw [take_of_leading hn] at h
    by_cases hkind : k = .initializer
    · subst hkind
      obtain ⟨v, hv⟩ : ∃ v, u.drop n = ';' :: v := by
        have hnext := (initializerLength_spec hlength).2
        rw [drop_of_leading hn] at hnext
        cases hdrop : u.drop n with
        | nil => simp [hdrop] at hnext
        | cons c v =>
          obtain rfl : c = ';' := by simpa [hdrop] using hnext
          exact ⟨v, rfl⟩
      have hw : Complete (u.take n) := by
        have := hcloses.head
        rwa [take_of_leading hn, List.length_take_of_le hn] at this
      rw [hv] at h
      obtain ⟨bs, hleads⟩ := h.initializer hw (hbeside.prev_of_initializer hscan)
      rw [← hv, List.take_append_drop] at hleads
      exact ⟨_, prev', hleads⟩
    · have happart := apart_of_feed hmem hfeed (hrest.resumes (Or.inr (Or.inl hhead)))
      rw [drop_of_leading hn] at happart
      obtain ⟨bs, hleads⟩ := h.lexeme hkind hlength hn happart
      exact ⟨_, prev', hleads⟩

end

end NativeBinding.Grammar
