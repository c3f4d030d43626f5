import NativeBinding.Proofs.Grammar.Reading
import NativeBinding.Proofs.Grammar.RelabelState

/-!
Text that is read at another place. A relabelling that carries the lexemes of a text from one place
to another carries the whole reading of the text with it.
-/

namespace NativeBinding.Grammar

/-- The lexemes of a text at `p`, relabelled, are those of the text at `p'`. -/
def Relabelling.Carries (f : Relabelling) (p p' : Position) : Prop :=
  ∀ (kind : Terminal) (u w : List Char), w ≠ [] →
    (tokenAt kind (Position.past p u) w).relabel f = tokenAt kind (Position.past p' u) w

section

variable {f : Relabelling} {s s' : State} {p p' q q' : Position} {cs cs' : List Char}
  {ts : List Token}

theorem Relabelling.Carries.past (h : f.Carries p p') (w : List Char) :
    f.Carries (Position.past p w) (Position.past p' w) := by
  intro kind u v hv
  rw [← past_append, ← past_append]
  exact h kind (w ++ u) v hv

theorem Relabelling.Carries.token (h : f.Carries p p') (kind : Terminal) {w : List Char}
    (hw : w ≠ []) : (tokenAt kind p w).relabel f = tokenAt kind p' w :=
  h kind [] w hw

theorem Reads.relabel (h : Reads s p cs ts s' q cs') (hf : f.Carries p p') :
    ∃ q', Reads (s.relabel f) p' cs (ts.map (Token.relabel f)) (s'.relabel f) q' cs' := by
  induction h generalizing p' with
  | done => exact ⟨p', .done⟩
  | gap hscan _ ih =>
    obtain ⟨q', hrest⟩ := ih (hf.past _)
    rw [← State.expects_relabel (f := f)] at hscan
    exact ⟨q', .gap hscan hrest⟩
  | @lexeme s _ _ p _ cs _ _ kind n hscan hfeed _ ih =>
    obtain ⟨q', hrest⟩ := ih (hf.past _)
    have htoken := hf.token kind (take_ne_nil (scan_lexeme_bound hscan))
    have hfeed' := s.feed_relabel (f := f) (tokenAt kind p (cs.take n))
    rw [hfeed, htoken] at hfeed'
    rw [← State.expects_relabel (f := f)] at hscan
    rw [List.map_cons, htoken]
    exact ⟨q', .lexeme hscan hfeed' hrest⟩

theorem Reads.of_relabel {s₁ s₁' : State} {ts' : List Token} (h : Reads s₁ p' cs ts' s₁' q' cs')
    (hs : s₁ = s.relabel f) (hf : f.Carries p p') :
    ∃ ts s' q, Reads s p cs ts s' q cs' ∧ s₁' = s'.relabel f := by
  induction h generalizing s p with
  | done => exact ⟨[], s, p, .done, hs⟩
  | gap hscan _ ih =>
    obtain ⟨ts, s', q, hrest, hs'⟩ := ih hs (hf.past _)
    rw [hs, State.expects_relabel] at hscan
    exact ⟨ts, s', q, .gap hscan hrest, hs'⟩
  | @lexeme _ s₂ _ p' _ cs _ _ kind n hscan hfeed _ ih =>
    have htoken := hf.token kind (take_ne_nil (scan_lexeme_bound hscan))
    rw [hs, ← htoken, State.feed_relabel] at hfeed
    obtain ⟨s₃, hfeed, hs₂⟩ := Option.map_eq_some_iff.1 hfeed
    obtain ⟨ts, s', q, hrest, hs'⟩ := ih hs₂.symm (hf.past _)
    rw [hs, State.expects_relabel] at hscan
    exact ⟨_, s', q, .lexeme hscan hfeed hrest, hs'⟩

theorem Reads.relabel_iff (hf : f.Carries p p') (items : List ItemTree) :
    (∃ ts s' q, Reads (s.relabel f) p' cs ts s' q [] ∧ s'.finish? = some items) ↔
      ∃ items', (∃ ts s' q, Reads s p cs ts s' q [] ∧ s'.finish? = some items') ∧
        items'.map (ItemTree.relabel f) = items := by
  constructor
  · rintro ⟨ts', s₁, q', hreads, hfinish⟩
    obtain ⟨ts, s', q, hreads', rfl⟩ := hreads.of_relabel rfl hf
    rw [State.finish?_relabel] at hfinish
    obtain ⟨items', hfinish, hitems⟩ := Option.map_eq_some_iff.1 hfinish
    exact ⟨items', ⟨ts, s', q, hreads', hfinish⟩, hitems⟩
  · rintro ⟨items', ⟨ts, s', q, hreads, hfinish⟩, rfl⟩
    obtain ⟨q', hreads⟩ := hreads.relabel hf
    refine ⟨_, _, q', hreads, ?_⟩
    rw [State.finish?_relabel, hfinish]
    rfl

theorem State.relabel_eq_self (h : ts.foldlM State.feed s = some s')
    (hs : s.relabel f = s) (hts : ∀ t ∈ ts, t.relabel f = t) : s'.relabel f = s' := by
  induction ts generalizing s with
  | nil =>
    cases h
    exact hs
  | cons t ts ih =>
    obtain ⟨s₁, hfeed, h⟩ := Option.bind_eq_some_iff.1 h
    have hfeed' := s.feed_relabel (f := f) t
    rw [hs, hts t List.mem_cons_self, hfeed] at hfeed'
    exact ih h (Option.some.inj hfeed').symm fun u hu => hts u (List.mem_cons_of_mem t hu)

theorem Reads.rest_iff (h : Reads s p cs ts s' p' cs') {us : List Token} {s'' : State}
    {p'' : Position} {cs'' : List Char} (hend : cs''.length ≤ cs'.length) :
    Reads s p cs us s'' p'' cs'' ↔
      ∃ us', us = ts ++ us' ∧ Reads s' p' cs' us' s'' p'' cs'' := by
  induction h generalizing us with
  | done => simp
  | @gap _ _ p _ cs _ ts n hscan hrest ih =>
    have hn := scan_gap_bound hscan
    have hle : cs''.length ≤ (cs.drop n).length := Nat.le_trans hend hrest.length_le
    rw [← ih hend]
    conv => lhs; rw [← List.take_append_drop n cs]
    apply Reads.gap_iff _ hle
    rw [List.take_append_drop, List.length_take_of_le hn.2, hscan]
  | @lexeme _ s₁ _ p _ cs _ ts kind n hscan hfeed hrest ih =>
    have hn := scan_lexeme_bound hscan
    have hle : cs''.length ≤ (cs.drop n).length := Nat.le_trans hend hrest.length_le
    conv => lhs; rw [← List.take_append_drop n cs]
    rw [Reads.lexeme_iff (by rw [List.take_append_drop, List.length_take_of_le hn.2, hscan]) hle]
    constructor
    · rintro ⟨s₂, us₁, rfl, hfeed', hreads⟩
      cases hfeed.symm.trans hfeed'
      obtain ⟨us', rfl, hrest'⟩ := (ih hend).1 hreads
      exact ⟨us', rfl, hrest'⟩
    · rintro ⟨us', rfl, hreads⟩
      exact ⟨s₁, ts ++ us', rfl, hfeed, (ih hend).2 ⟨us', rfl, hreads⟩⟩

theorem Reads.eq_of_length (h : Reads s p cs ts s' p' cs') (hlen : cs'.length = cs.length) :
    ts = [] ∧ s' = s ∧ p' = p ∧ cs' = cs := by
  cases h with
  | done => exact ⟨rfl, rfl, rfl, rfl⟩
  | gap hscan hrest =>
    have hle := hrest.length_le
    have hn := scan_gap_bound hscan
    rw [List.length_drop] at hle
    omega
  | lexeme hscan _ hrest =>
    have hle := hrest.length_le
    have hn := scan_lexeme_bound hscan
    rw [List.length_drop] at hle
    omega

end

end NativeBinding.Grammar
