import Mathlib.Data.List.DropRight
import NativeBinding.Proofs.Grammar.Moved
import NativeBinding.Proofs.Grammar.Seam

/-!
Readings up to places. Without the places of its lexemes and the blanks around its initializers, a
state is led by bare tokens to bare states, wherever in a text they stand.
-/

namespace NativeBinding.Grammar

open Text

theorem stripLeft_append_of_head {v w : List Char} (h : stripLeft (v ++ w) = v ++ w) :
    stripLeft v = v := by
  cases v with
  | nil => rfl
  | cons c v =>
    rw [stripLeft, List.dropWhile_eq_self_iff] at h ⊢
    exact fun hlen => h (by simp)

theorem strip_strip (w : List Char) : strip (strip w) = strip w := by
  have hleft (u : List Char) : stripLeft (stripLeft u) = stripLeft u :=
    List.dropWhile_idempotent isBlank u
  have hstrip : stripLeft (strip w) = strip w := by
    obtain ⟨v, hv⟩ : ∃ v, strip w ++ v = stripLeft w := by
      refine ⟨((stripLeft w).reverse.takeWhile isBlank).reverse, ?_⟩
      rw [strip, stripLeft, ← List.reverse_append, List.takeWhile_append_dropWhile,
        List.reverse_reverse]
    exact stripLeft_append_of_head (by rw [hv, hleft])
  rw [strip, hstrip, strip, List.reverse_reverse, hleft]

theorem strip_append_blanks {w y : List Char} (hy : ∀ c ∈ y, isBlank c) :
    strip (w ++ y) = strip w := by
  have hnil : stripLeft y = [] := by
    rw [stripLeft, List.dropWhile_eq_nil_iff]
    exact hy
  have hleft : stripLeft (w ++ y) = stripLeft w ++ y ∨
      stripLeft (w ++ y) = [] ∧ stripLeft w = [] := by
    induction w with
    | nil => exact Or.inr ⟨hnil, rfl⟩
    | cons c w ih =>
      by_cases hc : isBlank c
      · simpa [stripLeft, hc] using ih
      · exact Or.inl (by simp [stripLeft, hc])
  rw [strip, strip]
  rcases hleft with hleft | ⟨hleft, hw⟩
  · have hreverse : ∀ c ∈ y.reverse, isBlank c := fun c hc => hy c (List.mem_reverse.1 hc)
    rw [hleft, List.reverse_append]
    conv => lhs; rw [stripLeft, List.dropWhile_append_of_pos hreverse]
    rfl
  · rw [hleft, hw]

theorem stripLeft_of_head {w : List Char} (h : ∀ c ∈ w.head?, isBlank c = false) :
    stripLeft w = w := by
  cases w with
  | nil => rfl
  | cons c w => simp [stripLeft, h c rfl]

theorem prefix_strip {w : List Char} (hw : w ≠ []) (hfirst : ∀ c ∈ w.head?, isBlank c = false)
    (hlast : ∀ c ∈ w.getLast?, isBlank c = false) (y : List Char) : w <+: strip (w ++ y) := by
  have hleft : stripLeft (w ++ y) = w ++ y :=
    stripLeft_of_head (by rwa [List.head?_append_of_ne_nil w hw])
  have hright : stripLeft w.reverse = w.reverse :=
    stripLeft_of_head (by rwa [List.head?_reverse])
  rw [strip, hleft, List.reverse_append, stripLeft, List.dropWhile_append]
  split
  · have hstrip : (w.reverse.dropWhile isBlank).reverse = w := by
      rw [← stripLeft, hright, List.reverse_reverse]
    exact ⟨[], by rw [List.append_nil, hstrip]⟩
  · rw [List.reverse_append, List.reverse_reverse]
    exact List.prefix_append w _

theorem strip_prefix_self {w : List Char} (hfirst : ∀ c ∈ w.head?, isBlank c = false) :
    strip w <+: w := by
  rw [strip, stripLeft_of_head hfirst]
  exact List.rdropWhile_prefix isBlank w

def bare : Relabelling := fun kind l =>
  ⟨if kind = .initializer then String.ofList (strip l.text.toList) else l.text, .start, .start⟩

theorem bare_tokenAt (k : Terminal) (p p' : Position) (w : List Char) :
    (tokenAt k p w).relabel bare = (tokenAt k p' w).relabel bare := rfl

/-- The same state, up to places and the blanks around initializers. -/
def State.Same (s s' : State) : Prop :=
  s.relabel bare = s'.relabel bare

namespace State.Same

variable {s s' s₁ : State}

theorem refl (s : State) : s.Same s := rfl

theorem trans {s'' : State} (h : s.Same s') (h' : s'.Same s'') : s.Same s'' :=
  Eq.trans h h'

theorem symm (h : s.Same s') : s'.Same s :=
  Eq.symm h

theorem expects (h : s.Same s') : s.expects = s'.expects := by
  rw [← State.expects_relabel (f := bare), h, State.expects_relabel]

theorem feed (h : s.Same s') {t t' : Token} (ht : t.relabel bare = t'.relabel bare)
    (hfeed : s.feed t = some s₁) : ∃ s₁', s'.feed t' = some s₁' ∧ s₁.Same s₁' := by
  have h₁ := s.feed_relabel (f := bare) t
  have h₂ := s'.feed_relabel (f := bare) t'
  rw [← h, ← ht, h₁, hfeed] at h₂
  obtain ⟨s₁', hfeed', hsame⟩ := Option.map_eq_some_iff.1 h₂.symm
  exact ⟨s₁', hfeed', hsame.symm⟩

theorem finish (h : s.Same s') {items : List ItemTree} (hfinish : s.finish? = some items) :
    ∃ items', s'.finish? = some items' ∧
      items'.map (ItemTree.relabel bare) = items.map (ItemTree.relabel bare) := by
  have h₁ := s.finish?_relabel (f := bare)
  have h₂ := s'.finish?_relabel (f := bare)
  rw [← h, h₁, hfinish] at h₂
  obtain ⟨items', hfinish', hsame⟩ := Option.map_eq_some_iff.1 h₂.symm
  exact ⟨items', hfinish', hsame⟩

end State.Same

/-- From a state, a text is read to its end, wherever it stands, and the reader ends as in `r`. -/
def Ends (s : State) (cs : List Char) (r : State) : Prop :=
  ∀ p, ∃ ts r' q, Reads s p cs ts r' q [] ∧ r.Same r'

section

variable {s s' s₁ r : State} {p q : Position} {cs w : List Char} {ts : List Token}

theorem Reads.ends (h : Reads s p cs ts r q []) (hs : s.Same s') : Ends s' cs r := by
  generalize hend : ([] : List Char) = rest at h
  induction h generalizing s' with
  | done =>
    subst hend
    exact fun p => ⟨[], s', p, .done, hs⟩
  | gap hscan _ ih =>
    intro p
    obtain ⟨ts, r', q, hreads, hr⟩ := ih hs hend (Position.past p _)
    rw [hs.expects] at hscan
    exact ⟨ts, r', q, .gap hscan hreads, hr⟩
  | lexeme hscan hfeed _ ih =>
    intro p
    obtain ⟨s₁', hfeed', hs₁⟩ := hs.feed (bare_tokenAt _ _ p _) hfeed
    obtain ⟨ts, r', q, hreads, hr⟩ := ih hs₁ hend (Position.past p _)
    rw [hs.expects] at hscan
    exact ⟨_, r', q, .lexeme hscan hfeed' hreads, hr⟩

namespace Ends

theorem same (h : Ends s cs r) (hs : s.Same s') : Ends s' cs r := by
  obtain ⟨ts, r', q, hreads, hr⟩ := h .start
  intro p
  obtain ⟨ts', r'', q', hreads', hr'⟩ := hreads.ends hs p
  exact ⟨ts', r'', q', hreads', hr.trans hr'⟩

theorem gap_iff (hscan : scan s.expects (w ++ cs) = .gap w.length) :
    Ends s (w ++ cs) r ↔ Ends s cs r := by
  constructor
  · intro h
    obtain ⟨ts, r', q, hreads, hr⟩ := h .start
    rw [Reads.gap_iff hscan (Nat.zero_le _)] at hreads
    intro p
    obtain ⟨ts', r'', q', hreads', hr'⟩ := hreads.ends (.refl s) p
    exact ⟨ts', r'', q', hreads', hr.trans hr'⟩
  · intro h p
    obtain ⟨ts, r', q, hreads, hr⟩ := h (Position.past p w)
    exact ⟨ts, r', q, (Reads.gap_iff hscan (Nat.zero_le _)).2 hreads, hr⟩

theorem lexeme {k : Terminal} (hscan : scan s.expects (w ++ cs) = .lexeme k w.length)
    (hfeed : s.feed (tokenAt k p w) = some s₁) (h : Ends s₁ cs r) : Ends s (w ++ cs) r := by
  intro p'
  obtain ⟨s₁', hfeed', hs₁⟩ := (State.Same.refl s).feed (bare_tokenAt k p p' w) hfeed
  obtain ⟨ts, r', q, hreads, hr⟩ := h.same hs₁ (Position.past p' w)
  exact ⟨_, r', q, (Reads.cons_iff hscan (Nat.zero_le _) hfeed').2 hreads, hr⟩

end Ends

theorem isBlank_of_isGapSpace {c : Char} (h : isGapSpace c) : isBlank c := by
  rcases isGapSpace_cases h with rfl | rfl | rfl | rfl | rfl <;> decide

theorem Ends.spaces_iff (hw : ∀ c ∈ w, isGapSpace c) : Ends s (w ++ cs) r ↔ Ends s cs r := by
  have hdrop (cs : List Char) : Ends s cs r ↔ Ends s (cs.dropWhile isGapSpace) r := by
    cases cs with
    | nil => rfl
    | cons c cs =>
      by_cases hc : isGapSpace c
      · conv => lhs; rw [← List.takeWhile_append_dropWhile (p := isGapSpace) (l := c :: cs)]
        apply Ends.gap_iff
        rw [List.takeWhile_append_dropWhile, scan_spaces _ hc]
      · rw [List.dropWhile_cons_of_neg hc]
  rw [hdrop (w ++ cs), hdrop cs, List.dropWhile_append_of_pos hw]

end

end NativeBinding.Grammar
