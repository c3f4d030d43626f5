import NativeBinding.Proofs.Grammar.Lengths

/-!
The reading loop as a relation. `Reads s p cs ts s' p' cs'` says that from the state `s`, at the
place `p` before the text `cs`, the tokens `ts` are read, and the state is `s'` at the place `p'`
before the rest `cs'`. A text is read without failure exactly if some tokens lead to its end in a
state that a file may end in.
-/

namespace NativeBinding

def Position.Before (p q : Position) : Prop :=
  p.line < q.line ∨ (p.line = q.line ∧ p.column < q.column)

theorem Position.Before.trans {p q r : Position} (hpq : p.Before q) (hqr : q.Before r) :
    p.Before r := by
  unfold Before at *
  omega

theorem Position.Before.ne {p q : Position} (h : p.Before q) : p ≠ q := by
  rintro rfl
  unfold Before at h
  omega

def Position.UpTo (p q : Position) : Prop :=
  p.line < q.line ∨ (p.line = q.line ∧ p.column ≤ q.column)

theorem Position.UpTo.refl (p : Position) : p.UpTo p :=
  Or.inr ⟨rfl, Nat.le_refl _⟩

theorem Position.UpTo.of_not_before {p q : Position} (h : ¬ q.Before p) : p.UpTo q := by
  unfold Before at h
  unfold UpTo
  omega

theorem Position.Before.upTo {p q : Position} (h : p.Before q) : p.UpTo q := by
  unfold Before at h
  unfold UpTo
  omega

theorem Position.UpTo.trans {p q r : Position} (hpq : p.UpTo q) (hqr : q.UpTo r) : p.UpTo r := by
  unfold UpTo at *
  omega

theorem Position.Before.trans_upTo {p q r : Position} (hpq : p.Before q) (hqr : q.UpTo r) :
    p.Before r := by
  unfold UpTo at hqr
  unfold Before at *
  omega

theorem Position.before_after (p : Position) (c : Char) : p.Before (p.after c) := by
  unfold Before after
  split <;> simp

namespace Grammar

open Text

@[simp] theorem past_nil (p : Position) : Position.past p [] = p := rfl

@[simp] theorem past_cons (p : Position) (c : Char) (cs : List Char) :
    Position.past p (c :: cs) = Position.past (p.after c) cs := rfl

theorem past_append (p : Position) (cs ds : List Char) :
    Position.past p (cs ++ ds) = Position.past (Position.past p cs) ds := by
  simp [Position.past, List.foldl_append]

theorem before_past (p : Position) {cs : List Char} (h : cs ≠ []) :
    p.Before (Position.past p cs) := by
  induction cs generalizing p with
  | nil => exact absurd rfl h
  | cons c cs ih =>
    rw [past_cons]
    by_cases hcs : cs = []
    · subst hcs
      exact p.before_after c
    · exact (p.before_after c).trans (ih (p.after c) hcs)

def fit (expected : List Terminal) (cs : List Char) : Kind → Option (Kind × Nat)
  | .terminal t => if expected.contains t then (t.lexemeLength cs).map (.terminal t, ·) else none
  | .gap g => (g.length cs).map (.gap g, ·)

theorem scan_eq (expected : List Terminal) (cs : List Char) :
    scan expected cs =
      match priority.findSome? (fit expected cs) with
      | some (.gap _, n) => .gap n
      | some (.terminal .ident, n) => .lexeme (identKind expected (cs.take n)) n
      | some (.terminal t, n) => .lexeme t n
      | none => .unknown := by
  have hfit : (fun k : Kind => match k with
      | .terminal t => if expected.contains t then (k.length cs).map (k, ·) else none
      | .gap _ => (k.length cs).map (k, ·)) = fit expected cs := by
    funext k
    cases k <;> rfl
  rw [← hfit]
  rfl

theorem length_of_fit {expected : List Terminal} {cs : List Char} {k : Kind} {n : Nat}
    (h : priority.findSome? (fit expected cs) = some (k, n)) :
    k.length cs = some n ∧ ∀ t, k = .terminal t → t ∈ expected := by
  obtain ⟨k', -, hk⟩ := List.exists_of_findSome?_eq_some h
  cases k' with
  | terminal t =>
    rw [fit] at hk
    split at hk
    · next ht =>
      obtain ⟨m, hm, heq⟩ := Option.map_eq_some_iff.1 hk
      cases heq
      exact ⟨hm, by rintro _ ⟨⟩; simpa using ht⟩
    · cases hk
  | gap g =>
    obtain ⟨m, hm, heq⟩ := Option.map_eq_some_iff.1 hk
    cases heq
    exact ⟨hm, by rintro _ ⟨⟩⟩

theorem fit_eq_none {expected : List Terminal} {cs : List Char} {k : Kind}
    (h : k.length cs = none) : fit expected cs k = none := by
  cases k with
  | terminal t =>
    have h : t.lexemeLength cs = none := h
    rw [fit, h]
    split <;> rfl
  | gap g =>
    have h : g.length cs = none := h
    rw [fit, h]
    rfl

theorem fit_eq_none_of_start {expected : List Terminal} {cs : List Char} {k : Kind} {c : Char}
    (h : k.startsWith c = false) : fit expected (c :: cs) k = none := by
  refine fit_eq_none (Option.eq_none_iff_forall_ne_some.2 fun n hn => ?_)
  rw [Kind.startsWith_of_length hn] at h
  cases h

theorem scan_gap {expected : List Terminal} {cs : List Char} {n : Nat}
    (h : scan expected cs = .gap n) : ∃ g : Gap, g.length cs = some n := by
  rw [scan_eq] at h
  split at h
  · next g m hfit =>
    cases h
    exact ⟨g, (length_of_fit hfit).1⟩
  all_goals cases h

/-- The terminal whose rule measures the lexeme, and the one the lexeme counts as. -/
theorem scan_lexeme {expected : List Terminal} {cs : List Char} {kind : Terminal} {n : Nat}
    (h : scan expected cs = .lexeme kind n) :
    ∃ t ∈ expected, t.lexemeLength cs = some n ∧
      (kind = t ∨ t = .ident ∧ kind = identKind expected (cs.take n)) := by
  rw [scan_eq] at h
  split at h
  · cases h
  · next m hfit =>
    obtain ⟨hm, ht⟩ := length_of_fit hfit
    cases h
    exact ⟨.ident, ht _ rfl, hm, Or.inr ⟨rfl, rfl⟩⟩
  · next t m _ hfit =>
    obtain ⟨hm, ht⟩ := length_of_fit hfit
    cases h
    exact ⟨_, ht _ rfl, hm, Or.inl rfl⟩
  · cases h

theorem scan_gap_bound {expected : List Terminal} {cs : List Char} {n : Nat}
    (h : scan expected cs = .gap n) : 0 < n ∧ n ≤ cs.length := by
  obtain ⟨g, hg⟩ := scan_gap h
  exact Gap.length_bound hg

theorem scan_lexeme_bound {expected : List Terminal} {cs : List Char} {kind : Terminal} {n : Nat}
    (h : scan expected cs = .lexeme kind n) : 0 < n ∧ n ≤ cs.length := by
  obtain ⟨t, -, ht, -⟩ := scan_lexeme h
  exact Terminal.lexemeLength_bound ht

theorem take_ne_nil {cs : List Char} {n : Nat} (h : 0 < n ∧ n ≤ cs.length) : cs.take n ≠ [] := by
  intro hnil
  have := congrArg List.length hnil
  simp only [List.length_take, List.length_nil] at this
  omega

def tokenAt (kind : Terminal) (p : Position) (word : List Char) : Token :=
  ⟨kind, ⟨String.ofList word, p, Position.past p word⟩⟩

/-- No token is empty, and none starts before the end of another before it. -/
structure InOrder (ts : List Token) : Prop where
  long : ∀ t ∈ ts, t.start.Before t.stop
  apart : ts.Pairwise fun a b => a.stop.UpTo b.start

theorem InOrder.starts {ts : List Token} (h : InOrder ts) :
    ts.Pairwise fun a b => a.start.Before b.start :=
  h.apart.imp_of_mem fun ha _ hab => (h.long _ ha).trans_upTo hab

inductive Reads : State → Position → List Char → List Token → State → Position → List Char → Prop
  | done {s : State} {p : Position} {cs : List Char} : Reads s p cs [] s p cs
  | gap {s s' : State} {p p' : Position} {cs cs' : List Char} {ts : List Token} {n : Nat}
      (hscan : scan s.expects cs = .gap n)
      (rest : Reads s (Position.past p (cs.take n)) (cs.drop n) ts s' p' cs') :
      Reads s p cs ts s' p' cs'
  | lexeme {s s₁ s' : State} {p p' : Position} {cs cs' : List Char} {ts : List Token}
      {kind : Terminal} {n : Nat} (hscan : scan s.expects cs = .lexeme kind n)
      (hfeed : s.feed (tokenAt kind p (cs.take n)) = some s₁)
      (rest : Reads s₁ (Position.past p (cs.take n)) (cs.drop n) ts s' p' cs') :
      Reads s p cs (tokenAt kind p (cs.take n) :: ts) s' p' cs'

theorem readFrom_skip (skip : Nat) (s : State) (last p : Position) (source cs : List Char) :
    readFrom skip s last p source cs =
      readFrom 0 s last (Position.past p (cs.take skip)) (source.drop skip) (cs.drop skip) := by
  induction skip generalizing p source cs with
  | zero => simp
  | succ skip ih =>
    cases cs with
    | nil => simp [readFrom]
    | cons c cs => simp [readFrom, ih]

theorem readFrom_nil_eq_ok_iff {skip : Nat} {s : State} {last p : Position} {source : List Char}
    {items : List ItemTree} :
    readFrom skip s last p source [] = .ok items ↔ s.finish? = some items := by
  rw [readFrom]
  cases s.finish? <;> simp

theorem readFrom_piece {n : Nat} (hn : 0 < n) (s : State) (last p : Position)
    (source : List Char) (c : Char) (cs : List Char) :
    readFrom (n - 1) s last (p.after c) source.tail cs =
      readFrom 0 s last (Position.past p ((c :: cs).take n)) (source.drop n)
        ((c :: cs).drop n) := by
  obtain ⟨m, rfl⟩ := Nat.exists_eq_succ_of_ne_zero (Nat.ne_of_gt hn)
  rw [readFrom_skip]
  simp

theorem readFrom_gap {n : Nat} {s : State} {p : Position} {cs : List Char}
    (hscan : scan s.expects cs = .gap n) (last : Position) (source : List Char) :
    readFrom 0 s last p source cs =
      readFrom 0 s last (Position.past p (cs.take n)) (source.drop n) (cs.drop n) := by
  have hn := scan_gap_bound hscan
  cases cs with
  | nil => simp at hn; omega
  | cons c cs =>
    rw [readFrom, hscan]
    exact readFrom_piece hn.1 s last p source c cs

theorem readFrom_lexeme {kind : Terminal} {n : Nat} {s : State} {p : Position} {cs : List Char}
    (hscan : scan s.expects cs = .lexeme kind n) (last : Position) (source : List Char) :
    readFrom 0 s last p source cs =
      match s.feed (tokenAt kind p (cs.take n)) with
      | some s₁ => readFrom 0 s₁ p (Position.past p (cs.take n)) (source.drop n) (cs.drop n)
      | none => .error ⟨.token (String.ofList (cs.take n)), p⟩ := by
  have hn := scan_lexeme_bound hscan
  cases cs with
  | nil => simp at hn; omega
  | cons c cs =>
    rw [readFrom, hscan]
    cases hfeed : s.feed (tokenAt kind p ((c :: cs).take n)) with
    | none =>
      rw [tokenAt] at hfeed
      simp only [hfeed]
    | some s₁ =>
      rw [tokenAt] at hfeed
      simp only [hfeed]
      exact readFrom_piece hn.1 s₁ p p source c cs

theorem readFrom_misfit {s : State} {c : Char} {cs : List Char}
    (hscan : scan s.expects (c :: cs) = .unknown) (last p : Position) (source : List Char) :
    readFrom 0 s last p source (c :: cs) = .error (misfit p source c cs) := by
  rw [readFrom, hscan]

def lastStart (last : Position) (ts : List Token) : Position :=
  (ts.getLast?.map Token.start).getD last

theorem lastStart_cons (last : Position) (t : Token) (ts : List Token) :
    lastStart last (t :: ts) = lastStart t.start ts := by
  cases ts with
  | nil => rfl
  | cons u us =>
    rw [lastStart, List.getLast?_cons_cons, lastStart]
    cases h : (u :: us).getLast? with
    | none => simp at h
    | some v => rfl

theorem Reads.exists_append {s s' : State} {p p' : Position} {cs cs' : List Char} {ts : List Token}
    (h : Reads s p cs ts s' p' cs') : ∃ w, cs = w ++ cs' ∧ p' = Position.past p w := by
  induction h with
  | done => exact ⟨[], rfl, rfl⟩
  | @gap _ _ p _ cs _ _ n _ _ ih | @lexeme _ _ _ p _ cs _ _ _ n _ _ _ ih =>
    obtain ⟨w, hw, hp⟩ := ih
    exact ⟨cs.take n ++ w, by rw [List.append_assoc, ← hw, List.take_append_drop],
      by rw [hp, past_append]⟩

theorem Reads.length_le {s s' : State} {p p' : Position} {cs cs' : List Char} {ts : List Token}
    (h : Reads s p cs ts s' p' cs') : cs'.length ≤ cs.length := by
  obtain ⟨w, rfl, -⟩ := h.exists_append
  simp

theorem drop_past {cs cs' : List Char} {n : Nat} (hn : n ≤ cs.length)
    (hle : cs'.length ≤ (cs.drop n).length) (source : List Char) :
    (source.drop n).drop ((cs.drop n).length - cs'.length) =
      source.drop (cs.length - cs'.length) := by
  rw [List.length_drop] at hle ⊢
  rw [List.drop_drop, show n + (cs.length - n - cs'.length) = cs.length - cs'.length by omega]

theorem Reads.readFrom_eq {s s' : State} {p p' : Position} {cs cs' : List Char} {ts : List Token}
    (h : Reads s p cs ts s' p' cs') (last : Position) (source : List Char) :
    readFrom 0 s last p source cs =
      readFrom 0 s' (lastStart last ts) p' (source.drop (cs.length - cs'.length)) cs' := by
  induction h generalizing last source with
  | @done _ _ cs => rw [Nat.sub_self]; rfl
  | gap hscan rest ih =>
    rw [readFrom_gap hscan, ih, drop_past (scan_gap_bound hscan).2 rest.length_le]
  | lexeme hscan hfeed rest ih =>
    rw [readFrom_lexeme hscan, hfeed]
    dsimp only
    rw [ih, drop_past (scan_lexeme_bound hscan).2 rest.length_le, lastStart_cons]
    rfl

/-- A run does not go on here: the text ends, its next lexeme is not taken, or it has none. -/
inductive Stuck (s : State) (p : Position) : List Char → Prop
  | ending : Stuck s p []
  | token {cs : List Char} {kind : Terminal} {n : Nat}
      (hscan : scan s.expects cs = .lexeme kind n)
      (hfeed : s.feed (tokenAt kind p (cs.take n)) = none) : Stuck s p cs
  | misfit {c : Char} {cs : List Char} (hscan : scan s.expects (c :: cs) = .unknown) :
      Stuck s p (c :: cs)

theorem exists_stuck (s : State) (p : Position) (cs : List Char) :
    ∃ ts s' p' rest, Reads s p cs ts s' p' rest ∧ Stuck s' p' rest := by
  -- By the length of the text, since each piece takes off several characters.
  generalize hk : cs.length = k
  induction k using Nat.strongRecOn generalizing s p cs with
  | ind k ih =>
    subst hk
    cases cs with
    | nil => exact ⟨[], s, p, [], .done, .ending⟩
    | cons c cs =>
      have shorter {n : Nat} (hn : 0 < n ∧ n ≤ (c :: cs).length) :
          ((c :: cs).drop n).length < (c :: cs).length := by
        rw [List.length_drop]
        omega
      cases hscan : scan s.expects (c :: cs) with
      | gap n =>
        obtain ⟨ts, s', p', rest, hreads, hstuck⟩ :=
          ih _ (shorter (scan_gap_bound hscan)) s _ _ rfl
        exact ⟨ts, s', p', rest, .gap hscan hreads, hstuck⟩
      | lexeme kind n =>
        cases hfeed : s.feed (tokenAt kind p ((c :: cs).take n)) with
        | none => exact ⟨[], s, p, c :: cs, .done, .token hscan hfeed⟩
        | some s₁ =>
          obtain ⟨ts, s', p', rest, hreads, hstuck⟩ :=
            ih _ (shorter (scan_lexeme_bound hscan)) s₁ _ _ rfl
          exact ⟨_, s', p', rest, .lexeme hscan hfeed hreads, hstuck⟩
      | unknown => exact ⟨[], s, p, c :: cs, .done, .misfit hscan⟩

theorem reads_of_readFrom {s : State} {last p : Position} {source cs : List Char}
    {items : List ItemTree} (h : readFrom 0 s last p source cs = .ok items) :
    ∃ ts s' p', Reads s p cs ts s' p' [] ∧ s'.finish? = some items := by
  obtain ⟨ts, s', p', rest, hreads, hstuck⟩ := exists_stuck s p cs
  rw [hreads.readFrom_eq] at h
  cases hstuck with
  | ending => exact ⟨ts, s', p', hreads, readFrom_nil_eq_ok_iff.1 h⟩
  | token hscan hfeed =>
    rw [readFrom_lexeme hscan, hfeed] at h
    cases h
  | misfit hscan =>
    rw [readFrom_misfit hscan] at h
    cases h

theorem readFrom_of_reads {s s' : State} {last p p' : Position} {source cs : List Char}
    {ts : List Token} {items : List ItemTree} (h : Reads s p cs ts s' p' [])
    (hfinish : s'.finish? = some items) : readFrom 0 s last p source cs = .ok items := by
  rw [h.readFrom_eq]
  exact readFrom_nil_eq_ok_iff.2 hfinish

theorem readMasked_eq_ok_iff {source text : List Char} {items : List ItemTree} :
    readMasked source text = .ok items ↔
      ∃ ts s p, Reads .start .start text ts s p [] ∧ s.finish? = some items := by
  constructor
  · exact reads_of_readFrom
  · rintro ⟨ts, s, p, hreads, hfinish⟩
    exact readFrom_of_reads hreads hfinish

theorem Reads.tokens {s s' : State} {p p' : Position} {cs cs' : List Char} {ts : List Token}
    (h : Reads s p cs ts s' p' cs') : s'.tokens = s.tokens ++ ts := by
  induction h with
  | done => simp
  | gap _ _ ih => exact ih
  | lexeme _ hfeed _ ih => rw [ih, State.feed_tokens hfeed, List.append_assoc]; rfl

theorem State.tokens_of_finish {s : State} {items : List ItemTree} (h : s.finish? = some items) :
    s.tokens = items.flatMap ItemTree.tokens := by
  rw [State.finish?.eq_def] at h
  split at h
  · cases h
    simp [State.tokens, Scope.tokens]
  · cases h

theorem Reads.items_tokens {text : List Char} {ts : List Token} {s : State} {p : Position}
    {items : List ItemTree} (h : Reads .start .start text ts s p [])
    (hfinish : s.finish? = some items) : items.flatMap ItemTree.tokens = ts := by
  rw [← State.tokens_of_finish hfinish, h.tokens]
  simp [State.start, State.tokens, Scope.tokens]

theorem Reads.inOrder {s s' : State} {p p' : Position} {cs cs' : List Char}
    {ts : List Token} (h : Reads s p cs ts s' p' cs') :
    (∀ t ∈ ts, p.UpTo t.start) ∧ InOrder ts := by
  induction h with
  | done => exact ⟨by simp, by simp, .nil⟩
  | @gap s _ p _ cs _ ts n hscan _ ih =>
    have hp : p.Before (Position.past p (cs.take n)) :=
      before_past p (take_ne_nil (scan_gap_bound hscan))
    exact ⟨fun t ht => (hp.trans_upTo (ih.1 t ht)).upTo, ih.2⟩
  | @lexeme s _ _ p _ cs _ ts kind n hscan _ _ ih =>
    have hp : p.Before (Position.past p (cs.take n)) :=
      before_past p (take_ne_nil (scan_lexeme_bound hscan))
    refine ⟨?_, ?_, List.pairwise_cons.2 ⟨ih.1, ih.2.apart⟩⟩
    · intro t ht
      rcases List.mem_cons.1 ht with rfl | ht
      · exact .refl p
      · exact (hp.trans_upTo (ih.1 t ht)).upTo
    · intro t ht
      rcases List.mem_cons.1 ht with rfl | ht
      · exact hp
      · exact ih.2.long t ht

theorem Reads.exists_word {s s' : State} {p p' : Position} {cs cs' : List Char}
    {ts : List Token} (h : Reads s p cs ts s' p' cs') {t : Token} (ht : t ∈ ts) :
    ∃ pre word post, cs = pre ++ (word ++ post) ∧ word ≠ [] ∧
      t = tokenAt t.kind (Position.past p pre) word := by
  induction h with
  | done => cases ht
  | @gap s _ p _ cs _ _ n hscan _ ih =>
    obtain ⟨pre, word, post, hcs, hword, heq⟩ := ih ht
    refine ⟨cs.take n ++ pre, word, post, ?_, hword, by rwa [past_append]⟩
    rw [List.append_assoc, ← hcs, List.take_append_drop]
  | @lexeme s _ _ p _ cs _ _ kind n hscan _ _ ih =>
    rcases List.mem_cons.1 ht with rfl | ht
    · have hword := take_ne_nil (scan_lexeme_bound hscan)
      exact ⟨[], cs.take n, cs.drop n, (List.take_append_drop n cs).symm, hword, rfl⟩
    · obtain ⟨pre, word, post, hcs, hword, heq⟩ := ih ht
      refine ⟨cs.take n ++ pre, word, post, ?_, hword, by rwa [past_append]⟩
      rw [List.append_assoc, ← hcs, List.take_append_drop]

theorem Reads.exists_start {s s' : State} {p p' : Position} {cs cs' : List Char}
    {ts : List Token} (h : Reads s p cs ts s' p' cs') {t : Token} (ht : t ∈ ts) :
    ∃ n < cs.length, t.start = Position.past p (cs.take n) := by
  obtain ⟨pre, word, post, rfl, hword, heq⟩ := h.exists_word ht
  have hpos := List.length_pos_iff.2 hword
  refine ⟨pre.length, by simp only [List.length_append]; omega, ?_⟩
  rw [heq, List.take_left]
  rfl

theorem Reads.feeds {s s' : State} {p p' : Position} {cs cs' : List Char} {ts : List Token}
    (h : Reads s p cs ts s' p' cs') : ts.foldlM State.feed s = some s' := by
  induction h with
  | done => rfl
  | gap _ _ ih => exact ih
  | lexeme _ hfeed _ ih =>
    rw [List.foldlM_cons, hfeed]
    exact ih

theorem Reads.past_eq {s s' : State} {p p' : Position} {cs cs' : List Char} {ts : List Token}
    (h : Reads s p cs ts s' p' cs') (hend : cs' = []) : p' = Position.past p cs := by
  obtain ⟨w, rfl, hp⟩ := h.exists_append
  rw [hp, hend, List.append_nil]

theorem Reads.eq_drop {s s' : State} {p p' : Position} {cs cs' : List Char} {ts : List Token}
    (h : Reads s p cs ts s' p' cs') : cs' = cs.drop (cs.length - cs'.length) := by
  obtain ⟨w, rfl, -⟩ := h.exists_append
  simp

section

variable {s s' : State} {p p' : Position} {cs cs' : List Char} {ts : List Token}

theorem Reads.gap_iff {w : List Char} (hscan : scan s.expects (w ++ cs) = .gap w.length)
    (hend : cs'.length ≤ cs.length) :
    Reads s p (w ++ cs) ts s' p' cs' ↔ Reads s (Position.past p w) cs ts s' p' cs' := by
  have hbound := scan_gap_bound hscan
  generalize htext : w ++ cs = text at hscan hbound
  constructor
  · intro h
    cases h with
    | done =>
      rw [← htext, List.length_append] at hend
      omega
    | gap hscan' rest =>
      cases hscan.symm.trans hscan'
      rwa [← htext, List.take_left, List.drop_left] at rest
    | lexeme hscan' _ _ => cases hscan.symm.trans hscan'
  · intro h
    refine .gap hscan ?_
    rwa [← htext, List.take_left, List.drop_left]

theorem Reads.lexeme_iff {w : List Char} {kind : Terminal}
    (hscan : scan s.expects (w ++ cs) = .lexeme kind w.length) (hend : cs'.length ≤ cs.length) :
    Reads s p (w ++ cs) ts s' p' cs' ↔
      ∃ s₁ ts₁, ts = tokenAt kind p w :: ts₁ ∧ s.feed (tokenAt kind p w) = some s₁ ∧
        Reads s₁ (Position.past p w) cs ts₁ s' p' cs' := by
  have hbound := scan_lexeme_bound hscan
  generalize htext : w ++ cs = text at hscan hbound
  constructor
  · intro h
    cases h with
    | done =>
      rw [← htext, List.length_append] at hend
      omega
    | gap hscan' _ => cases hscan.symm.trans hscan'
    | lexeme hscan' hfeed rest =>
      cases hscan.symm.trans hscan'
      rw [← htext, List.take_left] at hfeed rest
      rw [List.drop_left] at rest
      exact ⟨_, _, by rw [← htext, List.take_left], hfeed, rest⟩
  · rintro ⟨s₁, ts₁, rfl, hfeed, rest⟩
    subst htext
    have h : Reads s p (w ++ cs) (tokenAt kind p ((w ++ cs).take w.length) :: ts₁) s' p' cs' :=
      .lexeme hscan (by rwa [List.take_left]) (by rwa [List.take_left, List.drop_left])
    rwa [List.take_left] at h

theorem Reads.cons_iff {s₁ : State} {w : List Char} {kind : Terminal}
    (hscan : scan s.expects (w ++ cs) = .lexeme kind w.length) (hend : cs'.length ≤ cs.length)
    (hfeed : s.feed (tokenAt kind p w) = some s₁) :
    Reads s p (w ++ cs) (tokenAt kind p w :: ts) s' p' cs' ↔
      Reads s₁ (Position.past p w) cs ts s' p' cs' := by
  rw [Reads.lexeme_iff hscan hend]
  constructor
  · rintro ⟨s₂, ts₁, hts, hfeed', rest⟩
    cases hts
    rw [hfeed] at hfeed'
    cases hfeed'
    exact rest
  · intro rest
    exact ⟨s₁, ts, rfl, hfeed, rest⟩

end

end Grammar

end NativeBinding
