import NativeBinding.Proofs.Grammar.Following

/-!
The flag of the mask along the tokens of a text. Tokens tell where a signature opens and ends: the
gaps between them never do, and they show which words stand alone.
-/

namespace NativeBinding.Grammar

open Text Body

namespace Token

def startsWord (t : Token) : Bool :=
  t.text.toList.head?.any isWord

def endsWord (t : Token) : Bool :=
  t.text.toList.getLast?.any isWord

def joins (before t : Token) : Bool :=
  before.stop == t.start && before.endsWord

def continues (after t : Token) : Bool :=
  after.start == t.stop && after.startsWord

def signatureAfter (inSignature : Bool) (before : Option Token) (t : Token)
    (after : Option Token) : Bool :=
  Grammar.signatureAfter inSignature (before.any (·.joins t)) (after.any (·.continues t))
    t.text.toList

end Token

@[simp] theorem tokenAt_text (k : Terminal) (p : Position) (w : List Char) :
    (tokenAt k p w).text.toList = w := by
  simp [tokenAt, Token.text]

@[simp] theorem tokenAt_start (k : Terminal) (p : Position) (w : List Char) :
    (tokenAt k p w).start = p := rfl

@[simp] theorem tokenAt_stop (k : Terminal) (p : Position) (w : List Char) :
    (tokenAt k p w).stop = Position.past p w := rfl

@[simp] theorem tokenAt_kind (k : Terminal) (p : Position) (w : List Char) :
    (tokenAt k p w).kind = k := rfl

theorem commentRest_last {cs : List Char} {n : Nat} (h : commentRest cs = some n) :
    (cs.take n).getLast? = some '/' := by
  fun_induction commentRest cs generalizing n with
  | case1 cs =>
    cases h
    rfl
  | case2 c cs _ ih =>
    obtain ⟨m, hm, rfl⟩ := Option.map_eq_some_iff.1 h
    have hne := take_ne_nil (commentRest_bound hm)
    obtain ⟨d, w, hw⟩ := List.exists_cons_of_ne_nil hne
    rw [List.take_succ_cons, hw, List.getLast?_cons_cons, ← hw, ih hm]
  | case3 => cases h

theorem isGapSpace_not_isWord {c : Char} (h : isGapSpace c) : isWord c = false := by
  rcases isGapSpace_cases h with rfl | rfl | rfl | rfl | rfl <;> decide

/-- A gap ends no word, unless a line comment does, which the end of its line follows. -/
theorem Gap.last {g : Gap} {cs : List Char} {n : Nat} (h : g.length cs = some n)
    (prev : Option Char) :
    (lastOf prev (cs.take n)).any isWord = false ∨ cs.drop n = [] ∨
      (cs.drop n).head? = some '\n' := by
  have hne := take_ne_nil (Gap.length_bound h)
  rw [lastOf_eq_getLast? hne]
  cases g with
  | space =>
    left
    rw [List.getLast?_eq_some_getLast hne]
    exact isGapSpace_not_isWord (Gap.space_chars h _ (List.getLast_mem hne))
  | blockComment =>
    left
    obtain ⟨rest, m, rfl, hm, rfl⟩ := Gap.blockComment_eq_some_iff.1 h
    obtain ⟨d, w, hw⟩ := List.exists_cons_of_ne_nil (take_ne_nil (commentRest_bound hm))
    have hlast := commentRest_last hm
    rw [hw] at hlast
    rw [List.take_succ_cons, List.take_succ_cons, hw, List.getLast?_cons_cons,
      List.getLast?_cons_cons, hlast]
    decide
  | lineComment =>
    right
    obtain ⟨rest, rfl, rfl⟩ := Gap.lineComment_eq_some_iff.1 h
    rw [List.drop_succ_cons, List.drop_succ_cons]
    have hstop := head?_drop_takeWhile (· != '\n') rest
    cases hdrop : rest.drop (rest.takeWhile (· != '\n')).length with
    | nil => exact Or.inl rfl
    | cons c after =>
      rw [hdrop] at hstop
      exact Or.inr (by simpa using hstop)

/-- What is known of a place inside a text: the token before it, and the character. -/
structure Beside (s : State) (before : Option Token) (p : Position) (prev : Option Char)
    (cs : List Char) : Prop where
  joined : (prev.any isWord = before.any fun t => t.stop == p && t.endsWord) ∨ cs = [] ∨
    cs.head? = some '\n'
  past : ∀ t ∈ before, t.stop = p ∨ t.stop.Before p
  spaced : .initializer ∈ s.expects → ∀ t ∈ before, t.endsWord = false

theorem Beside.start (cs : List Char) : Beside .start none .start none cs :=
  ⟨Or.inl rfl, nofun, fun _ => nofun⟩

theorem Beside.gap {s : State} {before : Option Token} {p : Position} {prev : Option Char}
    {cs : List Char} (h : Beside s before p prev cs) {g : Gap} {n : Nat}
    (hg : g.length cs = some n) :
    Beside s before (Position.past p (cs.take n)) (lastOf prev (cs.take n)) (cs.drop n) := by
  have hlater : ∀ t ∈ before, t.stop.Before (Position.past p (cs.take n)) := by
    intro t ht
    have hp := before_past p (take_ne_nil (Gap.length_bound hg))
    rcases h.past t ht with heq | hbefore
    · exact heq ▸ hp
    · exact hbefore.trans hp
  refine ⟨?_, fun t ht => Or.inr (hlater t ht), h.spaced⟩
  refine (Gap.last hg prev).imp_left fun hlast => ?_
  rw [hlast]
  cases before with
  | none => rfl
  | some t => simp [(hlater t rfl).ne]

theorem Beside.lexeme {s s₁ : State} {k : Terminal} {n : Nat} {cs : List Char}
    (hscan : scan s.expects cs = .lexeme k n) {p : Position}
    (hfeed : s.feed (tokenAt k p (cs.take n)) = some s₁) (prev : Option Char) :
    Beside s₁ (some (tokenAt k p (cs.take n))) (Position.past p (cs.take n))
      (lastOf prev (cs.take n)) (cs.drop n) := by
  refine ⟨Or.inl ?_, fun t ht => Or.inl ?_, fun hinit t ht => ?_⟩
  · simp [Token.endsWord, lastOf_eq_getLast? (take_ne_nil (scan_lexeme_bound hscan))]
  · cases ht
    rfl
  · cases ht
    obtain rfl : k = .equals := State.kind_of_expects_initializer hfeed hinit
    rw [Token.endsWord, tokenAt_text,
      Terminal.take_of_spelling (by rfl) (scan_lexeme_kind hscan).2]
    decide

theorem Beside.prev_eq {s : State} {before : Option Token} {p : Position} {prev : Option Char}
    {cs : List Char} (h : Beside s before p prev cs) {k : Terminal} {n : Nat}
    (hlength : k.lexemeLength cs = some n) :
    prev.any isWord = before.any fun t => t.stop == p && t.endsWord := by
  rcases h.joined with heq | rfl | hhead
  · exact heq
  · have := Terminal.lexemeLength_bound hlength
    simp only [List.length_nil] at this
    omega
  · obtain ⟨rest, rfl⟩ := List.head?_eq_some_iff.1 hhead
    cases Kind.starts_space (k := .terminal k) (by decide) hlength

theorem Reads.head?_any {s s' : State} {p p' : Position} {cs cs' : List Char} {ts : List Token}
    (h : Reads s p cs ts s' p' cs') (hend : Halts cs') :
    cs.head?.any isWord = ts.head?.any fun t => t.start == p && t.startsWord := by
  cases h with
  | done =>
    rcases hend with rfl | hend | hend
    · rfl
    · rw [hend]
      exact show isWord '{' = false by decide
    · rw [hend]
      exact show isWord '=' = false by decide
  | @gap _ _ _ _ _ _ _ n hscan rest =>
    obtain ⟨g, hg⟩ := scan_gap hscan
    have hp := before_past p (take_ne_nil (Gap.length_bound hg))
    have hhead : cs.head?.any isWord = false := by
      cases cs with
      | nil => rfl
      | cons c cs =>
        rcases Gap.starts hg with rfl | hc
        · exact show isWord '/' = false by decide
        · exact isGapSpace_not_isWord hc
    rw [hhead]
    cases ts with
    | nil => rfl
    | cons t ts =>
      have hne : t.start ≠ p := (hp.trans_upTo (rest.inOrder.1 t List.mem_cons_self)).ne.symm
      simp [hne]
  | @lexeme _ _ _ _ _ _ _ _ k n hscan hfeed rest =>
    have hpos := (scan_lexeme_bound hscan).1
    obtain ⟨m, rfl⟩ := Nat.exists_eq_succ_of_ne_zero (Nat.ne_of_gt hpos)
    cases cs with
    | nil => simp [Token.startsWord]
    | cons c cs => simp [Token.startsWord]

end NativeBinding.Grammar
