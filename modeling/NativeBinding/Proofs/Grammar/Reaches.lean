import NativeBinding.Proofs.Grammar.Words

/-!
Where a text leads. `Reaches s cs Q rest` says that reading the text `cs` from the state `s` leads
to its rest in a state with `Q`, wherever the text stands. So what a text is read as can be told
piece by piece without keeping places.
-/

namespace NativeBinding.Grammar

def Opens (w : List Char) : Prop :=
  ∃ c cs, w = c :: cs ∧ isGapSpace c = false

theorem Opens.append {w : List Char} (h : Opens w) (rest : List Char) : Opens (w ++ rest) := by
  obtain ⟨c, cs, rfl, hc⟩ := h
  exact ⟨c, cs ++ rest, rfl, hc⟩

theorem IsIdent.opens {w : List Char} (h : IsIdent w) : Opens w := by
  rcases h with ⟨c, cs, rfl, hc, -⟩ | ⟨name, rfl, -⟩
  · refine ⟨c, cs, rfl, ?_⟩
    by_contra hspace
    rw [Bool.not_eq_false] at hspace
    rcases isGapSpace_cases hspace with rfl | rfl | rfl | rfl | rfl <;> exact absurd hc (by decide)
  · exact ⟨'r', _, rfl, by decide⟩

theorem IsLifetime.opens {w : List Char} (h : IsLifetime w) : Opens w := by
  obtain ⟨name, rfl, -⟩ := h
  exact ⟨'\'', name, rfl, by decide⟩

theorem IsNumber.opens {w : List Char} (h : IsNumber w) : Opens w := by
  rcases h with h | ⟨u, rfl, -⟩
  · obtain ⟨c, cs, rfl, hc⟩ := h.head
    refine ⟨c, cs, rfl, ?_⟩
    by_contra hspace
    rw [Bool.not_eq_false] at hspace
    rcases isGapSpace_cases hspace with rfl | rfl | rfl | rfl | rfl <;>
      exact absurd hc (by decide +kernel)
  · exact ⟨'-', u, rfl, by decide⟩

theorem stops_space (cs : List Char) : Stops (' ' :: cs) :=
  ⟨' ', cs, rfl, by decide⟩

theorem stops_mark {c : Char} (h : stops.contains c) (cs : List Char) : Stops (c :: cs) :=
  ⟨c, cs, rfl, by simpa using h⟩

def Reaches (s : State) (cs : List Char) (Q : State → Prop) (rest : List Char) : Prop :=
  ∀ p, ∃ ts s' p', Reads s p cs ts s' p' rest ∧ Q s'

section

variable {s s₁ : State} {cs mid rest w : List Char} {Q R : State → Prop}

namespace Reaches

theorem done (h : Q s) : Reaches s rest Q rest :=
  fun p => ⟨[], s, p, .done, h⟩

theorem trans (h : Reaches s cs Q mid) (h' : ∀ s', Q s' → Reaches s' mid R rest) :
    Reaches s cs R rest := by
  intro p
  obtain ⟨ts, s₁, p₁, hreads, hq⟩ := h p
  obtain ⟨ts', s₂, p₂, hreads', hr⟩ := h' s₁ hq p₁
  exact ⟨ts ++ ts', s₂, p₂, hreads.trans hreads', hr⟩

theorem imp (h : Reaches s cs Q rest) (himp : ∀ s', Q s' → R s') : Reaches s cs R rest :=
  h.trans fun _ hq => .done (himp _ hq)

theorem lexeme {k : Terminal} (hscan : scan s.expects (w ++ cs) = .lexeme k w.length)
    (h : ∀ l : Lexeme k, l.text.toList = w →
      ∃ s₁, s.feed ⟨k, l⟩ = some s₁ ∧ Reaches s₁ cs Q rest) :
    Reaches s (w ++ cs) Q rest := by
  intro p
  obtain ⟨s₁, hfeed, h⟩ := h (tokenAt k p w).lexeme String.toList_ofList
  obtain ⟨ts, s₂, p₂, hreads, hq⟩ := h (Position.past p w)
  exact ⟨_, s₂, p₂, (Reads.next hscan hfeed).trans hreads, hq⟩

end Reaches

theorem State.not_initializer {k : Terminal} (hk : k ∈ s.expects) (hne : k ≠ .initializer) :
    .initializer ∉ s.expects := by
  intro h
  obtain ⟨place, colon, type, eq, rfl⟩ := constEquals_of_expects h
  exact hne (List.mem_singleton.1 hk)

namespace Reaches

theorem mark {c : Char} {k : Terminal} (hmark : Mark c k) (hk : k ∈ s.expects)
    (h : ∀ l : Lexeme k, ∃ s₁, s.feed ⟨k, l⟩ = some s₁ ∧ Reaches s₁ cs Q rest) :
    Reaches s (c :: cs) Q rest := by
  have hne : k ≠ .initializer := by cases hmark <;> decide
  exact lexeme (w := [c]) (scan_mark hmark hk (State.not_initializer hk hne)) fun l _ => h l

theorem space (hopens : Opens cs) (h : Reaches s cs Q rest) : Reaches s (' ' :: cs) Q rest := by
  obtain ⟨c, cs, rfl, hc⟩ := hopens
  intro p
  obtain ⟨ts, s', p', hreads, hq⟩ := h (p.after ' ')
  exact ⟨ts, s', p', .gap (scan_space hc) hreads, hq⟩

theorem name (hexpects : .ident ∈ s.expects) (hw : IsIdent w)
    (hfree : ∀ k ∈ s.expects, ¬ k.Spells w) (hrest : Stops cs)
    (h : ∀ l : Lexeme .ident, l.text.toList = w →
      ∃ s₁, s.feed ⟨.ident, l⟩ = some s₁ ∧ Reaches s₁ cs Q rest) :
    Reaches s (w ++ cs) Q rest := by
  refine lexeme (k := .ident) ?_ h
  rw [scan_ident hexpects hw hrest, identKind_eq_ident_iff.2 hfree]

theorem word {k : Terminal} (hexpects : .ident ∈ s.expects) (hk : k ∈ s.expects)
    (hspells : k.Spells w) (hw : IsIdent w) (hrest : Stops cs)
    (h : ∀ l : Lexeme k, ∃ s₁, s.feed ⟨k, l⟩ = some s₁ ∧ Reaches s₁ cs Q rest) :
    Reaches s (w ++ cs) Q rest := by
  refine lexeme (k := k) ?_ fun l _ => h l
  rw [scan_ident hexpects hw hrest, identKind_eq_of_spells hk hspells]

theorem lifetime (hexpects : .lifetime ∈ s.expects) (hw : IsLifetime w) (hrest : Stops cs)
    (h : ∀ l : Lexeme .lifetime, l.text.toList = w →
      ∃ s₁, s.feed ⟨.lifetime, l⟩ = some s₁ ∧ Reaches s₁ cs Q rest) :
    Reaches s (w ++ cs) Q rest :=
  lexeme (scan_lifetime hexpects hw hrest) h

theorem number (hexpects : .number ∈ s.expects) (hw : IsNumber w) (hrest : Stops cs)
    (h : ∀ l : Lexeme .number, l.text.toList = w →
      ∃ s₁, s.feed ⟨.number, l⟩ = some s₁ ∧ Reaches s₁ cs Q rest) :
    Reaches s (w ++ cs) Q rest :=
  lexeme (scan_number hexpects hw hrest) h

/-- Items with separators between them, each read from a state with the items before it. -/
theorem separated {ι : Type} (At : List ι → State → Prop) (text : ι → List Char) {sep : List Char}
    {first : ι} {items : List ι}
    (hfirst : ∀ rest, Stops rest → Reaches s (text first ++ rest) (At [first]) rest)
    (hnext : ∀ i ∈ items, ∀ done s, At done s → ∀ rest, Stops rest →
      Reaches s (sep ++ text i ++ rest) (At (done ++ [i])) rest)
    (hsep : ∀ cs, Stops (sep ++ cs)) (hrest : Stops rest) :
    Reaches s (text first ++ (items.flatMap (fun i => sep ++ text i) ++ rest)) (At (first :: items))
      rest := by
  have hstops (items : List ι) : Stops (items.flatMap (fun i => sep ++ text i) ++ rest) := by
    cases items with
    | nil => exact hrest
    | cons i items =>
      rw [List.flatMap_cons, List.append_assoc, List.append_assoc]
      exact hsep _
  have hmore (items : List ι) (done : List ι) (s : State) (hdone : At done s)
      (hitems : ∀ i ∈ items, ∀ done s, At done s → ∀ rest, Stops rest →
        Reaches s (sep ++ text i ++ rest) (At (done ++ [i])) rest) :
      Reaches s (items.flatMap (fun i => sep ++ text i) ++ rest) (At (done ++ items)) rest := by
    induction items generalizing done s with
    | nil => simpa using Reaches.done hdone
    | cons i items ih =>
      rw [List.flatMap_cons, List.append_assoc]
      refine (hitems i List.mem_cons_self done s hdone _ (hstops items)).trans fun s' hs' => ?_
      have := ih _ s' hs' fun j hj => hitems j (List.mem_cons_of_mem _ hj)
      rwa [List.append_assoc] at this
  exact (hfirst _ (hstops items)).trans fun s' hs' => hmore items [first] s' hs' hnext

end Reaches

/-- The state is after a complete part, and a token that may end it is what `close` makes of it. -/
structure Ready (s : State) (ends : List Terminal) (close : Token → Option State) : Prop where
  expects : ends ⊆ s.expects
  feed : ∀ t : Token, t.kind ∈ ends → s.feed t = close t

variable {ends : List Terminal} {close : Token → Option State}

theorem Ready.mono {ends' : List Terminal} (h : Ready s ends close) (hends : ends' ⊆ ends) :
    Ready s ends' close :=
  ⟨fun _ hk => h.expects (hends hk), fun t ht => h.feed t (hends ht)⟩

theorem Ready.mark {c : Char} {k : Terminal} (h : Ready s ends close) (hmark : Mark c k)
    (hk : k ∈ ends) (hclose : ∀ l : Lexeme k, ∃ s₁, close ⟨k, l⟩ = some s₁ ∧ Reaches s₁ cs Q rest) :
    Reaches s (c :: cs) Q rest := by
  refine .mark hmark (h.expects hk) fun l => ?_
  obtain ⟨s₁, hs₁, hreaches⟩ := hclose l
  exact ⟨s₁, by rw [h.feed _ hk, hs₁], hreaches⟩

theorem ready_typeDone (place : TypePlace) (t : TypeTree) :
    Ready (.typeDone place t) typeEnd (place.close t) :=
  ⟨fun _ h => h, fun _ _ => rfl⟩

theorem ready_path (front : Option (PathTree × Lexeme .colons)) (s : SegmentTree)
    (place : PathPlace) :
    Ready (.path front s place) (.plus :: typeEnd) (place.close (addSegment front s)) := by
  constructor
  · cases s <;> simp [State.expects, typeEnd]
  · rintro ⟨kind, l⟩ hkind
    cases s <;> cases kind <;> first
      | rfl
      | simp [typeEnd] at hkind

theorem ready_argLifetime (place : ArgPlace) (l : Lexeme .lifetime) (outer : PathPlace) :
    Ready (.argLifetime place l outer) [.comma, .greater] (place.close (.lifetime l) outer) :=
  ⟨fun _ h => h, fun _ _ => rfl⟩

theorem ready_boundLifetime (place : BoundPlace) (l : Lexeme .lifetime) :
    Ready (.boundLifetime place l) (.plus :: typeEnd) (place.close (.lifetime l)) :=
  ⟨fun _ h => h, fun _ _ => rfl⟩

end

end NativeBinding.Grammar
