import NativeBinding.Proofs.Grammar.Leading

/-!
Tokens that touch. Only next to the word `fn` does it matter to the mask whether a token touches a
word before or after it.
-/

namespace NativeBinding.Grammar

open Text Body

theorem signatureAfter_joined {w : List Char} (h : w ≠ ['f', 'n']) (b joined continued : Bool) :
    signatureAfter b joined continued w = signatureAfter b false continued w := by
  have h : (w == ['f', 'n']) = false := beq_eq_false_iff_ne.2 h
  unfold signatureAfter
  split <;> simp [opensSignature, h]

theorem signatureAfter_continued {w : List Char} (h : w ≠ ['f', 'n'])
    (hraw : w ≠ ['r', '#', 'f', 'n']) (htick : w ≠ ['\'', 'f', 'n']) (b joined continued : Bool) :
    signatureAfter b joined continued w = signatureAfter b joined false w := by
  have hname {name : List Char} (h : name ≠ ['f', 'n']) : (name == ['f', 'n']) = false :=
    beq_eq_false_iff_ne.2 h
  unfold signatureAfter
  split
  · rfl
  · rfl
  · next name =>
    have h : name ≠ ['f', 'n'] := fun heq => hraw (by rw [heq])
    simp [opensSignature, hname h]
  · next name =>
    have h : name ≠ ['f', 'n'] := fun heq => htick (by rw [heq])
    simp [opensSignature, hname h]
  · simp [opensSignature, hname h]

theorem Terminal.starts_word {t : Terminal} {c : Char} {cs : List Char} {n : Nat}
    (h : t.lexemeLength (c :: cs) = some n) (hc : isWord c) :
    isIdentRest c ∨ t = .number ∨ t = .initializer := by
  have hstarts : (Kind.terminal t).startsWith c := Kind.startsWith_of_length h
  have spelled {word : String} (hword : word.toList.head? == some c)
      (hhead : word.toList.head?.all fun d => !isWord d || isIdentRest d) : isIdentRest c := by
    rw [beq_iff_eq.1 hword] at hhead
    simpa [hc] using hhead
  cases t with
  | number => exact Or.inr (Or.inl rfl)
  | initializer => exact Or.inr (Or.inr rfl)
  | ident => exact Or.inl (isIdentRest_of_isIdentStart hstarts)
  | docComment | lifetime | string =>
    exact absurd (beq_iff_eq.1 hstarts) (ne_of_holds hc (by decide))
  | _ => exact Or.inl (spelled hstarts (by decide))

section

variable {s s₁ r : State} {p q : Position} {cs : List Char} {us : List Token} {k : Terminal}

theorem not_word_of_feed (hk : k = .ident ∨ k = .lifetime) {l : Lexeme k} (hexpects : k ∈ s.expects)
    (hfeed : s.feed ⟨k, l⟩ = some s₁) (hresumes : Resumes s₁ cs)
    (hstop : ∀ c, cs.head? = some c → isIdentRest c = false) : cs.head?.any isWord = false := by
  have hexpects' : .number ∉ s₁.expects ∧ .initializer ∉ s₁.expects := by
    rcases hk with rfl | rfl
    · exact (State.expects_after_ident hexpects hfeed).2.2
    · obtain ⟨-, -, hnumber, -, hinit⟩ := State.expects_after_lifetime hexpects hfeed
      exact ⟨hnumber, hinit⟩
  cases cs with
  | nil => rfl
  | cons c cs =>
    by_contra hword
    have hc : isWord c := by simpa using hword
    have hspace : isGapSpace c = false := by
      by_contra hspace
      rw [isGapSpace_not_isWord (by simpa using hspace)] at hc
      cases hc
    refine hresumes.head?_ne (c := c) ⟨ne_of_holds hc (by decide), ne_of_holds hc (by decide)⟩
      (ne_of_holds hc (by decide)) hspace (fun rest t n ht => ?_) rfl
    rcases Terminal.starts_word ht hc with hrest | rfl | rfl
    · rw [hstop c rfl] at hrest
      cases hrest
    · exact hexpects'.1
    · exact hexpects'.2

/-- Behind a lexeme that touches no word, or is not `fn`, the flag does not show what follows. -/
theorem Reads.signatureAfter_continued {n : Nat} (hscan : scan s.expects cs = .lexeme k n)
    (hk : k ≠ .initializer) (hfeed : s.feed (tokenAt k p (cs.take n)) = some s₁)
    (hrest : Reads s₁ (Position.past p (cs.take n)) (cs.drop n) us r q [])
    (hword : ∀ t ∈ us.head?, (tokenAt k p (cs.take n)).stop = t.start →
      (tokenAt k p (cs.take n)).endsWord → t.startsWord →
        (tokenAt k p (cs.take n)).text.toList ≠ ['f', 'n']) (b joined : Bool) :
    signatureAfter b joined ((cs.drop n).head?.any isWord) (cs.take n) =
      signatureAfter b joined false (cs.take n) := by
  obtain ⟨hmem, hlength⟩ := scan_lexeme_kind hscan
  cases hcontinued : (cs.drop n).head?.any isWord with
  | false => rfl
  | true =>
    have hresumes := hrest.resumes (Or.inl rfl)
    apply Grammar.signatureAfter_continued
    · intro htext
      rw [hrest.head?_any (Or.inl rfl)] at hcontinued
      obtain ⟨t, ht, htouch⟩ := (Option.any_eq_true _ _).1 hcontinued
      rw [Bool.and_eq_true, beq_iff_eq] at htouch
      refine hword t ht htouch.1.symm ?_ htouch.2 (by rw [tokenAt_text, htext])
      rw [Token.endsWord, tokenAt_text, htext]
      decide
    · intro htext
      obtain rfl : k = .ident := by
        have hsplit := List.take_append_drop n cs
        rw [htext] at hsplit
        rw [← hsplit] at hlength
        rcases Kind.starts_r (k := .terminal k) hlength with heq | heq <;> cases heq
        · rfl
        · exact absurd rfl hk
      rw [not_word_of_feed (Or.inl rfl) hmem hfeed hresumes (identLength_spec hlength).2]
        at hcontinued
      cases hcontinued
    · intro htext
      obtain rfl : k = .lifetime := by
        have hsplit := List.take_append_drop n cs
        rw [htext] at hsplit
        rw [← hsplit] at hlength
        rcases Kind.starts_tick (k := .terminal k) hlength with heq | heq <;> cases heq
        · rfl
        · exact absurd rfl hk
      rw [not_word_of_feed (Or.inr rfl) hmem hfeed hresumes (lifetimeLength_spec hlength).2]
        at hcontinued
      cases hcontinued

theorem maskFrom_lbrace (b : Bool) (prev prev' : Option Char) (rest : List Char) :
    maskFrom b prev ('{' :: rest) = maskFrom b prev' ('{' :: rest) := by
  rw [maskFrom, maskFrom, cellsFrom_brace, cellsFrom_brace]
  cases b with
  | true => rw [maskCells_brace, maskCells_brace]
  | false => rw [maskCells_brace_outside, maskCells_brace_outside]

theorem Reads.maskFrom_unjoined {before : Option Token} {b : Bool} {prev prev' : Option Char}
    {post : List Char} (h : Reads s p (maskFrom b prev post) us r q [])
    (hbeside : Beside s before p prev (maskFrom b prev post))
    (hword : ∀ t ∈ before, ∀ u ∈ us.head?, t.stop = u.start → t.endsWord → u.startsWord →
      u.text.toList ≠ ['f', 'n'])
    (hprev' : prev'.any isWord = false) : maskFrom b prev' post = maskFrom b prev post := by
  cases hprev : prev.any isWord with
  | false => exact maskFrom_congr (hprev'.trans hprev.symm) b post
  | true =>
    have halike := alike_maskFrom b prev post
    generalize htext : maskFrom b prev post = text at h hbeside halike
    cases h with
    | done =>
      have hlen := congrArg List.length htext
      rw [length_maskFrom] at hlen
      obtain rfl : post = [] := List.eq_nil_of_length_eq_zero hlen
      rw [← htext, maskFrom_nil, maskFrom_nil]
    | @gap _ _ _ _ _ _ _ n hscan hrest =>
      obtain ⟨g, hg⟩ := scan_gap hscan
      have hg : g.length post = some n := by
        rw [← hg]
        exact Gap.length_alike halike g
      have hne := take_ne_nil (Gap.length_bound hg)
      rw [← htext, Gap.maskFrom hg, Gap.maskFrom hg, lastOf_eq_getLast? hne,
        lastOf_eq_getLast? hne]
    | @lexeme _ s₁ _ _ _ _ _ us k n hscan hfeed hrest =>
      obtain ⟨hmem, hmasked⟩ := scan_lexeme_kind hscan
      have hk : k ≠ .initializer := by
        rintro rfl
        rw [hbeside.prev_of_initializer hscan] at hprev
        cases hprev
      have hlength : k.lexemeLength post = some n := by
        rw [← hmasked]
        exact Kind.length_alike halike (.terminal k) (by simpa using hk)
      by_cases hbrace : k = .lbrace
      · subst hbrace
        obtain ⟨-, rest, rfl⟩ := eq_cons_of_take (c := '{')
          (Terminal.take_of_spelling (t := .lbrace) rfl hlength)
          (Terminal.lexemeLength_bound hlength).2
        rw [← htext]
        exact maskFrom_lbrace b prev' prev rest
      · have happart : k.Apart (post.drop n) :=
          .alike halike hlength (apart_of_feed hmem hfeed (hrest.resumes (Or.inl rfl)))
        have htake : text.take n = post.take n :=
          (Kind.take_alike halike (.terminal k) (by simpa using hk) hlength).symm
        have hfn : post.take n ≠ ['f', 'n'] := by
          intro hfn
          have hjoined := hbeside.prev_eq hmasked
          rw [hprev] at hjoined
          obtain ⟨t, ht, htouch⟩ := (Option.any_eq_true _ _).1 hjoined.symm
          rw [Bool.and_eq_true, beq_iff_eq] at htouch
          refine hword t ht _ rfl htouch.1 htouch.2 ?_ (by rw [tokenAt_text, htake, hfn])
          rw [Token.startsWord, tokenAt_text, htake, hfn]
          decide
        have hne := take_ne_nil (Terminal.lexemeLength_bound hlength)
        rw [← htext, Terminal.maskFrom hk hlength happart (fun h => absurd h hbrace),
          Terminal.maskFrom hk hlength happart (fun h => absurd h hbrace),
          signatureAfter_joined hfn, signatureAfter_joined hfn b (prev.any isWord),
          lastOf_eq_getLast? hne, lastOf_eq_getLast? hne]

end

end NativeBinding.Grammar
