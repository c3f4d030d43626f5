import NativeBinding.Proofs.Grammar.Pieces

/-!
What can follow a lexeme. After an identifier neither a string nor `#` is expected, so its last
letter never becomes the mark of a raw string; after a lifetime no other lifetime is, so it never
becomes a character. An initializer is expected only where nothing else is.
-/

namespace NativeBinding.Grammar

open Text Body

namespace State

theorem constEquals_of_expects {s : State} (h : .initializer ∈ s.expects) :
    ∃ place colon type eq, s = .constEquals place colon type eq := by
  have htype {place : TypePlace} : .initializer ∉ place.expects := by
    unfold TypePlace.expects
    split <;> decide
  have hscope {scope : Scope} : .initializer ∉ scope.expects := by
    unfold Scope.expects
    split
    · split <;> decide
    · decide
    · decide
  unfold expects at h
  split at h <;> first
    | exact ⟨_, _, _, _, rfl⟩
    | exact absurd h hscope
    | exact absurd h htype
    | exact absurd h (by decide)

theorem expects_after_ident {s s' : State} {l : Lexeme .ident} (hexpects : .ident ∈ s.expects)
    (h : s.feed ⟨.ident, l⟩ = some s') :
    .string ∉ s'.expects ∧ .hash ∉ s'.expects ∧ .number ∉ s'.expects ∧
      .initializer ∉ s'.expects := by
  cases s with
  | visibility scope attrs v =>
    obtain ⟨word, _ | restriction⟩ := v <;> cases h
  | path front segment place => cases segment <;> simp [expects, typeEnd] at hexpects
  | _ =>
    first
      | (cases h; done)
      | (simp [expects, typeEnd] at hexpects; done)
      | (cases h; simp [expects, typeEnd])

theorem expects_after_lifetime {s s' : State} {l : Lexeme .lifetime}
    (hexpects : .lifetime ∈ s.expects) (h : s.feed ⟨.lifetime, l⟩ = some s') :
    .string ∉ s'.expects ∧ .hash ∉ s'.expects ∧ .number ∉ s'.expects ∧
      .lifetime ∉ s'.expects ∧ .initializer ∉ s'.expects := by
  cases s with
  | visibility scope attrs v =>
    obtain ⟨word, _ | restriction⟩ := v <;> cases h
  | path front segment place => cases segment <;> simp [expects, typeEnd] at hexpects
  | selfAmp place amp life mutable =>
    cases life <;> cases mutable <;> cases h
    simp [expects]
  | type place =>
    cases place with
    | target amp life mutable outer =>
      cases life <;> cases mutable <;> cases h
      simp [expects, TypePlace.expects, typeStart]
    | arg args outer =>
      cases h
      simp [expects]
    | _ => cases h
  | _ =>
    first
      | (cases h; done)
      | (simp [expects, typeEnd] at hexpects; done)
      | (cases h; simp [expects, typeEnd])

theorem kind_of_expects_initializer {s s' : State} {t : Token} (h : s.feed t = some s')
    (hinit : .initializer ∈ s'.expects) : t.kind = .equals := by
  obtain ⟨place, colon, type, eq, rfl⟩ := constEquals_of_expects hinit
  have hlast := congrArg List.getLast? (feed_tokens h)
  simp only [State.tokens, Lexeme.token, List.getLast?_concat, Option.some.injEq] at hlast
  rw [← hlast]

end State

def Halts (cs : List Char) : Prop :=
  cs = [] ∨ cs.head? = some '{' ∨ cs.head? = some '='

def Resumes (s : State) (cs : List Char) : Prop :=
  Halts cs ∨ scan s.expects cs ≠ .unknown

theorem Reads.resumes {s s' : State} {p p' : Position} {cs cs' : List Char} {ts : List Token}
    (h : Reads s p cs ts s' p' cs') (hend : Halts cs') : Resumes s cs := by
  cases h with
  | done => exact Or.inl hend
  | gap hscan _ => exact Or.inr (by simp [hscan])
  | lexeme hscan _ _ => exact Or.inr (by simp [hscan])

/-- A character that starts only some lexemes is not next where none of them is expected. -/
theorem Resumes.head?_ne {s : State} {cs : List Char} (h : Resumes s cs) {c : Char}
    (hmark : c ≠ '{' ∧ c ≠ '=') (hslash : c ≠ '/') (hspace : isGapSpace c = false)
    (honly : ∀ rest t n, t.lexemeLength (c :: rest) = some n → t ∉ s.expects) :
    cs.head? ≠ some c := by
  intro hhead
  obtain ⟨rest, rfl⟩ := List.head?_eq_some_iff.1 hhead
  rcases h with (h | h | h) | h
  · cases h
  · cases h
    exact hmark.1 rfl
  · cases h
    exact hmark.2 rfl
  · apply h
    cases hscan : scan s.expects (c :: rest) with
    | unknown => rfl
    | gap n =>
      obtain ⟨g, hg⟩ := scan_gap hscan
      rcases Gap.starts hg with hc | hc
      · exact absurd hc hslash
      · rw [hc] at hspace
        cases hspace
    | lexeme k n =>
      obtain ⟨hk, hlength⟩ := scan_lexeme_kind hscan
      exact absurd hk (honly rest k n hlength)

theorem apart_of_feed {s s' : State} {k : Terminal} {l : Lexeme k} (hexpects : k ∈ s.expects)
    (h : s.feed ⟨k, l⟩ = some s') {rest : List Char} (hrest : Resumes s' rest) :
    k.Apart rest := by
  have notRaw (hstring : .string ∉ s'.expects) (hhash : .hash ∉ s'.expects)
      (hinit : .initializer ∉ s'.expects) : opensRaw rest = false := by
    have hquote : rest.head? ≠ some '"' :=
      hrest.head?_ne (by decide) (by decide) (by decide) fun _ t n ht => by
        rcases Kind.starts_quote (k := .terminal t) ht with heq | heq <;> cases heq
        · exact hstring
        · exact hinit
    have hmark : rest.head? ≠ some '#' :=
      hrest.head?_ne (by decide) (by decide) (by decide) fun _ t n ht => by
        rcases Kind.starts_hash (k := .terminal t) ht with heq | heq <;> cases heq
        · exact hhash
        · exact hinit
    cases rest with
    | nil => rfl
    | cons c rest => simp_all [opensRaw]
  constructor
  · rintro (rfl | rfl)
    · obtain ⟨hstring, hhash, -, hinit⟩ := State.expects_after_ident hexpects h
      exact notRaw hstring hhash hinit
    · obtain ⟨hstring, hhash, -, -, hinit⟩ := State.expects_after_lifetime hexpects h
      exact notRaw hstring hhash hinit
  · rintro rfl
    obtain ⟨-, -, -, hlifetime, hinit⟩ := State.expects_after_lifetime hexpects h
    refine hrest.head?_ne (by decide) (by decide) (by decide) fun _ t n ht => ?_
    rcases Kind.starts_tick (k := .terminal t) ht with heq | heq <;> cases heq
    · exact hlifetime
    · exact hinit

end NativeBinding.Grammar
