import NativeBinding.Proofs.Body.Complete
import NativeBinding.Proofs.Grammar.Signature
import NativeBinding.Proofs.Grammar.Words

/-!
Reading a masked text. A text that the grammar reads as it stands is read alike behind the mask as
long as the mask keeps every initializer and blanks no block; the tokens of the text tell both.
-/

namespace NativeBinding.Grammar

open Text Body

theorem scan_mask {expected : List Terminal} (h : .initializer ∉ expected) (b : Bool)
    (prev : Option Char) (cs : List Char) :
    scan expected (maskFrom b prev cs) = scan expected cs :=
  (scan_alike (alike_maskFrom b prev cs) h).symm

theorem scan_initializer (cs : List Char) :
    scan [.initializer] cs =
      match Gap.blockComment.length cs, Gap.space.length cs, initializerLength cs with
      | some n, _, _ => .gap n
      | none, some n, _ => .gap n
      | none, none, some n => .lexeme .initializer n
      | none, none, none => match Gap.lineComment.length cs with
        | some n => .gap n
        | none => .unknown := by
  have hother {t : Terminal} (ht : t ≠ .initializer) :
      fit [.initializer] cs (.terminal t) = none := by
    simp [fit, ht]
  have hspelled : (Terminal.spelled.map Kind.terminal).findSome? (fit [.initializer] cs) = none :=
    rfl
  have hinit : fit [.initializer] cs (.terminal .initializer) =
    (initializerLength cs).map (.terminal .initializer, ·) := rfl
  have hgap {g : Gap} : fit [.initializer] cs (.gap g) = (g.length cs).map (.gap g, ·) := rfl
  rw [scan_eq, priority, List.findSome?_append, hspelled]
  simp only [List.findSome?_cons, hother, hinit, hgap, ne_eq, reduceCtorEq, not_false_eq_true]
  cases Gap.blockComment.length cs <;> cases Gap.space.length cs <;> cases initializerLength cs <;>
    cases Gap.lineComment.length cs <;> rfl

theorem scan_initializer_eq_gap_iff {cs : List Char} {n : Nat} :
    scan [.initializer] cs = .gap n ↔ Gap.blockComment.length cs = some n ∨
      Gap.blockComment.length cs = none ∧ Gap.space.length cs = some n := by
  rw [scan_initializer]
  cases hblock : Gap.blockComment.length cs with
  | some m => simp
  | none =>
    cases hspace : Gap.space.length cs with
    | some m => simp
    | none =>
      -- A line comment would be an initializer.
      cases hinit : initializerLength cs with
      | some m => simp
      | none =>
        cases hline : Gap.lineComment.length cs with
        | none => simp
        | some m =>
          obtain ⟨rest, rfl, -⟩ := Gap.lineComment_eq_some_iff.1 hline
          simp [initializerLength, isBlank] at hinit

theorem scan_initializer_eq_lexeme_iff {cs : List Char} {n : Nat} :
    scan [.initializer] cs = .lexeme .initializer n ↔ Gap.blockComment.length cs = none ∧
      Gap.space.length cs = none ∧ initializerLength cs = some n := by
  rw [scan_initializer]
  cases Gap.blockComment.length cs <;> cases Gap.space.length cs <;>
    cases initializerLength cs <;> cases Gap.lineComment.length cs <;> simp

section

variable {prev : Option Char} {u v : List Char}

theorem State.scan_gap_alike {s : State} (h : Alike prev u v) {n : Nat} :
    scan s.expects u = .gap n ↔ scan s.expects v = .gap n := by
  by_cases hinit : .initializer ∈ s.expects
  · obtain ⟨place, colon, type, eq, rfl⟩ := constEquals_of_expects hinit
    have hlength (g : Gap) : g.length u = g.length v := Gap.length_alike h g
    change scan [.initializer] _ = _ ↔ scan [.initializer] _ = _
    rw [scan_initializer_eq_gap_iff, scan_initializer_eq_gap_iff, hlength, hlength]
  · rw [scan_alike h hinit]

theorem State.scan_initializer_alike {s : State} (h : Alike prev u v) {n : Nat}
    (hscan : scan s.expects u = .lexeme .initializer n) (hn : initializerLength v = some n) :
    scan s.expects v = .lexeme .initializer n := by
  obtain ⟨place, colon, type, eq, rfl⟩ := constEquals_of_expects (scan_lexeme_kind hscan).1
  have hlength (g : Gap) : g.length u = g.length v := Gap.length_alike h g
  change scan [.initializer] _ = _ at hscan
  change scan [.initializer] _ = _
  rw [scan_initializer_eq_lexeme_iff, hlength, hlength] at hscan
  rw [scan_initializer_eq_lexeme_iff]
  exact ⟨hscan.1, hscan.2.1, hn⟩

end

theorem maskFrom_semicolon (b : Bool) (prev : Option Char) (rest : List Char) :
    maskFrom b prev (';' :: rest) = ';' :: maskFrom false (some ';') rest := by
  rw [maskFrom, cellsFrom_plain_cons (by decide), maskCells_semicolon]
  rfl

theorem maskFrom_initializer {cs : List Char} {n : Nat} (h : initializerLength cs = some n)
    (hcomplete : Complete (cs.take n)) {prev : Option Char} (hprev : prev.any isWord = false)
    (b b' : Bool) (prev' : Option Char) :
    maskFrom b prev cs = maskFrom b none (cs.take n) ++ maskFrom b' prev' (cs.drop n) := by
  have hsplit := List.take_append_drop n cs
  rcases (initializerLength_spec h).2 with hrest | ⟨rest, hrest⟩
  · rw [hrest, List.append_nil] at hsplit
    rw [hrest, hsplit, maskFrom_nil, List.append_nil]
    exact maskFrom_congr hprev b cs
  · rw [hrest] at hsplit ⊢
    conv => lhs; rw [← hsplit]
    rw [maskFrom_complete hcomplete b hprev, maskFrom_semicolon]

theorem initializerLength_mask {cs : List Char} {n : Nat} (h : initializerLength cs = some n)
    (hcomplete : Complete (cs.take n)) {prev : Option Char} (hprev : prev.any isWord = false)
    (b : Bool) : initializerLength (maskFrom b prev cs) = some n := by
  obtain ⟨⟨c, w, htext, hc, hblank, hw⟩, hrest⟩ := initializerLength_spec h
  rw [maskFrom_initializer h hcomplete hprev b false none]
  have hlen : (maskFrom b none (cs.take n)).length = n := by
    have hbound := (Terminal.lexemeLength_bound (t := .initializer) h).2
    rw [length_maskFrom, List.length_take_of_le hbound]
  have hsemi : ';' ∉ maskFrom b none (cs.take n) := by
    refine not_mem_maskFrom (by decide) ?_ b none
    rw [htext]
    simp [Ne.symm hc, hw]
  have hhead := (agree_maskFrom b none (cs.take n)).head?_eq
  cases hmasked : maskFrom b none (cs.take n) with
  | nil =>
    rw [hmasked, htext] at hhead
    cases hhead
  | cons d v =>
    rw [hmasked] at hlen hsemi hhead
    obtain rfl : c = d := by simpa [htext] using hhead
    rw [initializerLength_append hc hblank fun h => hsemi (List.mem_cons_of_mem _ h), hlen]
    rcases hrest with hrest | ⟨rest, hrest⟩
    · exact Or.inl (by rw [hrest, maskFrom_nil])
    · exact Or.inr ⟨_, by rw [hrest, maskFrom_semicolon]⟩

theorem drop_of_initializerLength_mask {b : Bool} {prev : Option Char} {cs : List Char} {n : Nat}
    (h : initializerLength (maskFrom b prev cs) = some n) :
    cs.drop n = [] ∨ (cs.drop n).head? = some ';' := by
  rcases (initializerLength_spec h).2 with hnil | ⟨rest, hsemi⟩
  · left
    rw [List.drop_eq_nil_iff, length_maskFrom] at hnil
    exact List.drop_eq_nil_iff.2 hnil
  · right
    have hmasked : (maskFrom b prev cs)[n]? = some ';' := by
      rw [← List.head?_drop, hsemi]
      rfl
    rw [List.head?_drop]
    exact getElem?_of_maskFrom hmasked (by decide)

theorem after_blankOut (p : Position) (c : Char) : p.after (blankOut c) = p.after c := by
  rw [blankOut]
  split
  · rfl
  · next hc =>
    have hc : c ≠ '\n' := by simpa using hc
    simp [Position.after, hc]

theorem past_blankOut (p : Position) (w : List Char) :
    Position.past p (w.map blankOut) = Position.past p w := by
  induction w generalizing p with
  | nil => rfl
  | cons c w ih => rw [List.map_cons, past_cons, past_cons, after_blankOut, ih]

theorem past_take_maskCells (p : Position) (mode : Mode) (prev : Option Char) (cs : List Cell)
    (n : Nat) :
    Position.past p ((maskCells mode prev cs).take n) =
      Position.past p ((cs.map (·.char)).take n) := by
  induction cs generalizing p mode prev n with
  | nil => rw [maskCells, List.map_nil]
  | cons c cs ih =>
    cases n with
    | zero => rfl
    | succ n =>
      rcases mode with b | (_ | left) | _
      all_goals
        rw [maskCells, List.take_succ_cons, past_cons, ih, List.map_cons, List.take_succ_cons,
          past_cons]
        try rw [after_blankOut]

theorem past_take_maskFrom (p : Position) (b : Bool) (prev : Option Char) (text : List Char)
    (n : Nat) :
    Position.past p ((maskFrom b prev text).take n) = Position.past p (text.take n) := by
  rw [maskFrom, past_take_maskCells, cellsFrom_char]

theorem past_maskFrom (p : Position) (b : Bool) (prev : Option Char) (text : List Char) :
    Position.past p (maskFrom b prev text) = Position.past p text := by
  have h := past_take_maskFrom p b prev text text.length
  rwa [List.take_length, List.take_of_length_le (Nat.le_of_eq (length_maskFrom b prev text))] at h

theorem past_mask (p : Position) (text : List Char) :
    Position.past p (mask text) = Position.past p text := by
  rw [mask_eq_maskFrom, past_maskFrom]

theorem Reads.place_eq {s : State} {p : Position} {ts : List Token} {cs pre post : List Char}
    (h : Reads .start .start (mask (pre ++ post)) ts s p cs) (hlen : cs.length = post.length) :
    p = Position.past .start pre := by
  obtain ⟨w, hw, rfl⟩ := h.exists_append
  rw [mask_eq_maskFrom] at hw
  have hlength : w.length = pre.length := by
    have := congrArg List.length hw
    simp only [length_maskFrom, List.length_append] at this
    omega
  have htake := past_take_maskFrom .start false none (pre ++ post) w.length
  rw [hw, List.take_left, hlength, List.take_left] at htake
  exact htake

theorem blankOut_cases (c : Char) : blankOut c = ' ' ∨ blankOut c = '\n' := by
  rw [blankOut]
  split
  · next hc => exact Or.inr (by simpa using hc)
  · exact Or.inl rfl

theorem isGapSpace_blankOut (c : Char) : isGapSpace (blankOut c) := by
  rcases blankOut_cases c with hc | hc <;> rw [hc] <;> decide

theorem isGapSpace_of_mem_blankOut {w : List Char} : ∀ c ∈ w.map blankOut, isGapSpace c := by
  intro c hc
  obtain ⟨d, -, rfl⟩ := List.mem_map.1 hc
  exact isGapSpace_blankOut d

section

variable {s s' : State} {p p' : Position} {cs : List Char} {ts : List Token}

theorem scan_blanks (expected : List Terminal) (c : Char) (w rest : List Char) :
    scan expected ((c :: w).map blankOut ++ '}' :: rest) = .gap (c :: w).length := by
  have htake : ((c :: w).map blankOut ++ '}' :: rest).takeWhile isGapSpace =
      (c :: w).map blankOut := by
    rw [List.takeWhile_append_of_pos isGapSpace_of_mem_blankOut]
    simp [show isGapSpace '}' = false by decide]
  have hscan : scan expected ((c :: w).map blankOut ++ '}' :: rest) =
      .gap (((c :: w).map blankOut ++ '}' :: rest).takeWhile isGapSpace).length :=
    scan_spaces expected (isGapSpace_blankOut c) (w.map blankOut ++ '}' :: rest)
  rw [hscan, htake, List.length_map]

theorem Reads.blanks_iff (w : List Char) {rest cs' : List Char}
    (hend : cs'.length ≤ rest.length + 1) :
    Reads s p (w.map blankOut ++ '}' :: rest) ts s' p' cs' ↔
      Reads s (Position.past p w) ('}' :: rest) ts s' p' cs' := by
  cases w with
  | nil => rfl
  | cons c w =>
    rw [Reads.gap_iff (by rw [scan_blanks, List.length_map]) hend, past_blankOut]

theorem Reads.rbrace (hinit : .initializer ∉ s.expects) {cs' : List Char}
    (hend : cs'.length ≤ cs.length) (h : Reads s p ('}' :: cs) ts s' p' cs') :
    .rbrace ∈ s.expects ∧ ∃ s₁ ts₁, ts = tokenAt .rbrace p ['}'] :: ts₁ ∧
      s.feed (tokenAt .rbrace p ['}']) = some s₁ ∧ Reads s₁ (p.after '}') cs ts₁ s' p' cs' := by
  have hmem : .rbrace ∈ s.expects := by
    cases h with
    | done =>
      rw [List.length_cons] at hend
      omega
    | gap hscan _ =>
      obtain ⟨g, hg⟩ := scan_gap hscan
      rcases Gap.starts hg with hc | hc
      · cases hc
      · exact absurd hc (by decide)
    | lexeme hscan hfeed rest =>
      obtain ⟨hmem, hlength⟩ := scan_lexeme_kind hscan
      rcases Mark.rbrace.only hlength with rfl | rfl
      · exact hmem
      · exact absurd hmem hinit
  have hscan : scan s.expects (['}'] ++ cs) = .lexeme .rbrace 1 := scan_mark .rbrace hmem hinit
  exact ⟨hmem, (Reads.lexeme_iff hscan hend).1 h⟩

theorem maskFrom_rbrace (prev : Option Char) (rest : List Char) :
    maskFrom false prev ('}' :: rest) = '}' :: maskFrom false (some '}') rest := by
  rw [maskFrom, cellsFrom_rbrace, maskCells_quiet_cons false prev (by decide)]
  rfl

theorem eq_cons_of_take {c : Char} {n : Nat} (h : cs.take n = [c]) (hn : n ≤ cs.length) :
    n = 1 ∧ ∃ rest, cs = c :: rest := by
  have hlen : n = 1 := by
    rw [← List.length_take_of_le hn, h]
    rfl
  refine ⟨hlen, cs.drop n, ?_⟩
  rw [← List.singleton_append, ← h, List.take_append_drop]

theorem Reads.to_rbrace {cs' : List Char} {t : Token} (h : Reads s p cs (t :: ts) s' p' cs')
    (ht : t.kind = .rbrace) (prev : Option Char) :
    ∃ body rest as, cs = body ++ '}' :: rest ∧
      cellsFrom 0 prev cs = as ++ ⟨'}', false⟩ :: cellsFrom 0 (some '}') rest ∧
      as.length = body.length ∧ depthAfter 0 as = some 0 ∧
      ∀ {us : List Token} {r : State} {q : Position},
        Reads s p (maskFrom false prev cs) us r q [] ↔
          Reads s (Position.past p body) ('}' :: maskFrom false (some '}') rest) us r q [] := by
  generalize hts : t :: ts = us at h
  induction h generalizing prev with
  | done => cases hts
  | @gap s s' p p' cs cs' us n hscan _ ih =>
    obtain ⟨body, rest, as, hcs, hcells, hlen, hdepth, hiff⟩ := ih (lastOf prev (cs.take n)) hts
    obtain ⟨g, hg⟩ := scan_gap hscan
    have hn : (cs.take n).length = n := List.length_take_of_le (Gap.length_bound hg).2
    refine ⟨cs.take n ++ body, rest, run (Kind.gap g).isRegion (cs.take n) ++ as,
      ?_, ?_, ?_, ?_, ?_⟩
    · rw [List.append_assoc, ← hcs, List.take_append_drop]
    · rw [Gap.cells hg, hcells, List.append_assoc]
    · rw [List.length_append, List.length_append, length_run, hlen]
    · rw [Body.depthAfter_append (Gap.depthAfter hg 0), hdepth]
    · intro us r q
      have hmask := (State.scan_gap_alike (alike_maskFrom false prev cs)).1 hscan
      rw [Gap.maskFrom hg] at hmask ⊢
      rw [Reads.gap_iff (by rw [hmask, hn]) (Nat.zero_le _), past_append]
      exact hiff
  | @lexeme s s₁ s' p p' cs cs' us k n hscan hfeed _ _ =>
    cases hts
    obtain rfl : k = .rbrace := ht
    obtain ⟨-, hlength⟩ := scan_lexeme_kind hscan
    have htext : cs.take n = ['}'] := Terminal.take_of_spelling (t := .rbrace) rfl hlength
    obtain ⟨rfl, rest, rfl⟩ := eq_cons_of_take htext (Terminal.lexemeLength_bound hlength).2
    refine ⟨[], rest, [], rfl, ?_, rfl, rfl, ?_⟩
    · exact cellsFrom_rbrace prev rest
    · intro us r q
      rw [maskFrom_rbrace]
      rfl

theorem cellsFrom_semicolon (prev : Option Char) (rest : List Char) :
    cellsFrom 0 prev (';' :: rest) = ⟨';', false⟩ :: cellsFrom 0 (some ';') rest :=
  cellsFrom_plain_cons (by decide) prev rest

theorem cellsFrom_initializer {n : Nat} (h : initializerLength cs = some n)
    (hcomplete : Complete (cs.take n)) {prev : Option Char} (hprev : prev.any isWord = false)
    (prev' : Option Char) :
    cellsFrom 0 prev cs = cells (cs.take n) ++ cellsFrom 0 prev' (cs.drop n) := by
  have hprev : prev.any isWord = (none : Option Char).any isWord := hprev
  have hsplit := List.take_append_drop n cs
  rw [cellsFrom_congr hprev]
  rcases (initializerLength_spec h).2 with hrest | ⟨rest, hrest⟩
  · rw [hrest, List.append_nil] at hsplit
    rw [hrest, hsplit, cellsFrom, List.append_nil]
    rfl
  · rw [hrest] at hsplit ⊢
    conv => lhs; rw [← hsplit]
    rw [hcomplete.ends, cellsFrom_semicolon]

theorem Token.signatureAfter_eq {s₁ : State} {before : Option Token} {prev : Option Char}
    (hbeside : Beside s before p prev cs) {k : Terminal} {n : Nat}
    (hscan : scan s.expects cs = .lexeme k n) {cs' : List Char}
    (hrest : Reads s₁ (Position.past p (cs.take n)) (cs.drop n) ts s' p' cs')
    (hend : Halts cs') (b : Bool) :
    Grammar.signatureAfter b (prev.any isWord) ((cs.drop n).head?.any isWord) (cs.take n) =
      (tokenAt k p (cs.take n)).signatureAfter b before ts.head? := by
  rw [Token.signatureAfter, hbeside.prev_eq (scan_lexeme_kind hscan).2, hrest.head?_any hend,
    tokenAt_text]
  rfl

theorem Beside.prev_of_initializer {before : Option Token} {prev : Option Char}
    (h : Beside s before p prev cs) {n : Nat}
    (hscan : scan s.expects cs = .lexeme .initializer n) : prev.any isWord = false := by
  obtain ⟨hmem, hlength⟩ := scan_lexeme_kind hscan
  rw [h.prev_eq hlength]
  cases before with
  | none => rfl
  | some t => simp [h.spaced hmem t rfl]

/-- A brace whose partner is among the tokens has its partner among the cells. -/
theorem Reads.exists_closing {cs' : List Char} (h : Reads s p cs ts s' p' cs') (hend : cs' = [])
    {before : Option Token} {prev : Option Char} (hbeside : Beside s before p prev cs)
    (hcomplete : ∀ t ∈ ts, t.kind = .initializer → Complete t.text.toList) {k d : Nat}
    (hnesting : nesting (k + (d + 1)) ts = some 0) :
    ∃ n, closing k (cellsFrom 0 prev cs) = some n := by
  induction h generalizing before prev k with
  | done =>
    cases hnesting
  | @gap s s' p p' cs cs' us n hscan _ ih =>
    obtain ⟨g, hg⟩ := scan_gap hscan
    obtain ⟨m, hm⟩ := ih hend (hbeside.gap hg) hcomplete hnesting
    rw [Gap.cells hg, closing_append (Gap.depthAfter hg k), hm]
    exact ⟨_, rfl⟩
  | @lexeme s s₁ s' p p' cs cs' us kind n hscan hfeed rest ih =>
    obtain ⟨hmem, hlength⟩ := scan_lexeme_kind hscan
    have hnext := Beside.lexeme hscan hfeed prev
    have hcomplete' : ∀ t ∈ us, t.kind = .initializer → Complete t.text.toList :=
      fun t ht => hcomplete t (List.mem_cons_of_mem _ ht)
    obtain ⟨e, he, hnesting⟩ := Option.bind_eq_some_iff.1 hnesting
    rw [tokenAt_kind] at he
    by_cases hkind : kind = .initializer
    · subst hkind
      have hw : Complete (cs.take n) := by
        have := hcomplete _ List.mem_cons_self rfl
        rwa [tokenAt_text] at this
      cases he
      obtain ⟨m, hm⟩ := ih hend hnext hcomplete' hnesting
      have hdepth : Body.depthAfter k (cells (cs.take n)) = some k := by
        simpa using depthAfter_add hw.balanced k
      rw [cellsFrom_initializer hlength hw (hbeside.prev_of_initializer hscan)
        (lastOf prev (cs.take n)), closing_append hdepth, hm]
      exact ⟨_, rfl⟩
    · have hcells := Terminal.cells hkind hlength
        (apart_of_feed hmem hfeed (rest.resumes (Or.inl hend))) prev
      rw [hcells]
      have hdepth := Terminal.depthAfter_cells hkind hlength k
      cases hk : kind.depthAfter k with
      | none =>
        -- Only a closing brace finds nothing open.
        obtain ⟨rfl, rfl⟩ := Terminal.eq_of_depthAfter_eq_none hk
        rw [Terminal.take_of_spelling (by rfl) hlength]
        exact ⟨0, rfl⟩
      | some k' =>
        have hk' := Terminal.depthAfter_add hk (d + 1)
        rw [he] at hk'
        cases hk'
        obtain ⟨m, hm⟩ := ih hend hnext hcomplete' hnesting
        rw [closing_append (hdepth.trans hk), hm]
        exact ⟨_, rfl⟩

/-- Along the tokens of a text, the mask keeps each initializer, and the only blocks it takes for
bodies are empty. -/
def Kept : Bool → Option Token → List Token → Prop
  | _, _, [] => True
  | b, before, t :: ts =>
      (t.kind = .initializer → maskFrom b none t.text.toList = t.text.toList) ∧
        (t.kind = .lbrace → b = true → ∃ u ∈ ts.head?, u.kind = .rbrace) ∧
        Kept (t.signatureAfter b before ts.head?) (some t) ts

instance Kept.decidable : ∀ b before ts, Decidable (Kept b before ts)
  | _, _, [] => .isTrue trivial
  | b, before, t :: ts =>
    have := decidable (t.signatureAfter b before ts.head?) (some t) ts
    inferInstanceAs (Decidable ((_ → _) ∧ (_ → _ → _) ∧ _))

theorem State.initializer_not_expected {k : Terminal} (h : k ∈ s.expects) (hk : k ≠ .initializer) :
    .initializer ∉ s.expects := by
  intro hinit
  obtain ⟨place, colon, type, eq, rfl⟩ := constEquals_of_expects hinit
  exact hk (List.mem_singleton.1 h)

theorem State.initializer_not_expected_after {s₁ : State} {t : Token} (h : s.feed t = some s₁)
    (ht : t.kind ≠ .equals) : .initializer ∉ s₁.expects :=
  fun hinit => ht (kind_of_expects_initializer h hinit)

theorem Resumes.head?_ne_point {s₁ : State} {l : Lexeme .number} (h : Resumes s₁ cs)
    (hfeed : s.feed ⟨.number, l⟩ = some s₁) : cs.head? ≠ some '.' := by
  refine h.head?_ne (by decide) (by decide) (by decide) fun rest t n ht => ?_
  cases Kind.starts_point (k := .terminal t) ht
  exact State.initializer_not_expected_after hfeed (by simp)

theorem Reads.block_iff {s₁ : State} (hinit : .initializer ∉ s.expects)
    (hscan : scan s.expects ('{' :: cs) = .lexeme .lbrace 1)
    (hfeed : s.feed (tokenAt .lbrace p ['{']) = some s₁)
    (h : Reads s₁ (p.after '{') cs ts s' p' []) {prev : Option Char}
    (hclosing : ∃ n, closing 0 (cellsFrom 0 (some '{') cs) = some n) :
    Reads s p (maskFrom true prev ('{' :: cs)) (tokenAt .lbrace p ['{'] :: ts) s' p' [] ↔
      (∃ u ∈ ts.head?, u.kind = .rbrace) ∧
        Reads s₁ (p.after '{') (maskFrom false (some '{') cs) ts s' p' [] := by
  obtain ⟨n, hn⟩ := hclosing
  obtain ⟨as, bs, hcells, -, hdepth⟩ := exists_of_closing hn
  obtain ⟨rest, rfl, rfl⟩ := cellsFrom_split hcells
  have hmask := scan_mask hinit true prev ('{' :: (as.map (·.char) ++ '}' :: rest))
  rw [hscan, maskFrom_body hcells (by simp) hdepth prev, ← List.singleton_append] at hmask
  rw [maskFrom_body hcells (by simp) hdepth prev, ← List.singleton_append,
    Reads.cons_iff hmask (Nat.zero_le _) hfeed, past_cons, past_nil,
    Reads.blanks_iff _ (Nat.zero_le _)]
  have hsame {t : Token} {us : List Token} (hts : ts = t :: us) (ht : t.kind = .rbrace) :
      Reads s₁ (p.after '{') (maskFrom false (some '{') (as.map (·.char) ++ '}' :: rest))
          ts s' p' [] ↔
        Reads s₁ (Position.past (p.after '{') (as.map (·.char)))
          ('}' :: maskFrom false (some '}') rest) ts s' p' [] := by
    subst hts
    obtain ⟨body, rest', as', htext, hcells', hlen, hdepth', hiff⟩ := h.to_rbrace ht (some '{')
    -- The brace that is read next is the one that closes the block.
    have hclosing := closing_of_balanced hdepth (cellsFrom 0 (some '}') rest)
    have hclosing' := closing_of_balanced hdepth' (cellsFrom 0 (some '}') rest')
    rw [← hcells] at hclosing
    rw [← hcells', hclosing, Option.some.injEq] at hclosing'
    obtain ⟨rfl, hrest⟩ := List.append_inj htext (by simp [hclosing', hlen])
    cases hrest
    exact hiff
  constructor
  · intro hblank
    have hinit' := State.initializer_not_expected_after hfeed nofun
    obtain ⟨-, s₂, us, hts, -, -⟩ := hblank.rbrace hinit' (Nat.zero_le _)
    exact ⟨⟨_, by rw [hts]; rfl, rfl⟩, (hsame hts rfl).2 hblank⟩
  · rintro ⟨⟨t, hhead, ht⟩, hkept⟩
    obtain ⟨us, hts⟩ := List.head?_eq_some_iff.1 hhead
    exact (hsame hts ht).1 hkept

theorem Token.signatureAfter_lbrace (b : Bool) (before after : Option Token) (p : Position) :
    (tokenAt .lbrace p ['{']).signatureAfter b before after = false := by
  rw [signatureAfter, tokenAt_text]
  rfl

theorem Reads.initializer_iff {s₁ : State} {n : Nat} {us : List Token} {before : Option Token}
    {prev : Option Char} (hscan : scan s.expects cs = .lexeme .initializer n)
    (hfeed : s.feed (tokenAt .initializer p (cs.take n)) = some s₁)
    (hbeside : Beside s before p prev cs) (hw : Complete (cs.take n)) (b : Bool)
    (ih : ∀ b, Reads s₁ (Position.past p (cs.take n))
        (maskFrom b (lastOf prev (cs.take n)) (cs.drop n)) us s' p' [] ↔
      Kept b (some (tokenAt .initializer p (cs.take n))) us) :
    Reads s p (maskFrom b prev cs) (tokenAt .initializer p (cs.take n) :: us) s' p' [] ↔
      Kept b before (tokenAt .initializer p (cs.take n) :: us) := by
  have hlength := (scan_lexeme_kind hscan).2
  have hn : (cs.take n).length = n :=
    List.length_take_of_le (Terminal.lexemeLength_bound hlength).2
  have hprev := hbeside.prev_of_initializer hscan
  have hmask := State.scan_initializer_alike (alike_maskFrom b prev cs) hscan
    (initializerLength_mask hlength hw hprev b)
  rw [maskFrom_initializer hlength hw hprev b _ (lastOf prev (cs.take n))] at hmask ⊢
  rw [Reads.lexeme_iff (by rw [hmask, length_maskFrom, hn]) (Nat.zero_le _), Kept, ← ih]
  constructor
  · rintro ⟨s₂, us', htokens, hfeed', hreads⟩
    obtain ⟨htoken, rfl⟩ := List.cons.inj htokens
    have htext := congrArg (·.text.toList) htoken
    simp only [tokenAt_text] at htext
    rw [← htext, hfeed] at hfeed'
    cases hfeed'
    refine ⟨fun _ => ?_, nofun, ?_⟩
    · rw [tokenAt_text, ← htext]
    · rwa [← htext] at hreads
  · rintro ⟨htext, -, hreads⟩
    have htext := htext rfl
    rw [tokenAt_text] at htext
    rw [htext]
    exact ⟨s₁, us, rfl, hfeed, hreads⟩

/-- A text is read alike behind the mask exactly if the mask leaves its tokens alone. -/
theorem Reads.mask_iff {cs' : List Char} (h : Reads s p cs ts s' p' cs') (hend : cs' = [])
    {before : Option Token} {prev : Option Char} (hbeside : Beside s before p prev cs)
    (hcomplete : ∀ t ∈ ts, t.kind = .initializer → Complete t.text.toList) {d : Nat}
    (hnesting : nesting d ts = some 0) (b : Bool) :
    Reads s p (maskFrom b prev cs) ts s' p' [] ↔ Kept b before ts := by
  induction h generalizing before prev d b with
  | done =>
    subst hend
    rw [maskFrom_nil]
    exact ⟨fun _ => trivial, fun _ => .done⟩
  | @gap s s' p p' cs cs' us n hscan _ ih =>
    obtain ⟨g, hg⟩ := scan_gap hscan
    have hn : (cs.take n).length = n := List.length_take_of_le (Gap.length_bound hg).2
    have hmask := (State.scan_gap_alike (alike_maskFrom b prev cs)).1 hscan
    rw [Gap.maskFrom hg] at hmask ⊢
    rw [Reads.gap_iff (by rw [hmask, hn]) (Nat.zero_le _)]
    exact ih hend (hbeside.gap hg) hcomplete hnesting b
  | @lexeme s s₁ s' p p' cs cs' us k n hscan hfeed rest ih =>
    obtain ⟨hmem, hlength⟩ := scan_lexeme_kind hscan
    have hn : (cs.take n).length = n :=
      List.length_take_of_le (Terminal.lexemeLength_bound hlength).2
    have hnext := Beside.lexeme hscan hfeed prev
    have hcomplete' : ∀ t ∈ us, t.kind = .initializer → Complete t.text.toList :=
      fun t ht => hcomplete t (List.mem_cons_of_mem _ ht)
    obtain ⟨e, he, hnesting⟩ := Option.bind_eq_some_iff.1 hnesting
    rw [tokenAt_kind] at he
    subst hend
    have ih := ih rfl hnext hcomplete' hnesting
    by_cases hkind : k = .initializer
    · subst hkind
      have hw := hcomplete _ List.mem_cons_self rfl
      rw [tokenAt_text] at hw
      exact Reads.initializer_iff hscan hfeed hbeside hw b ih
    · have hinit := State.initializer_not_expected hmem hkind
      by_cases hblock : k = .lbrace ∧ b = true
      · obtain ⟨rfl, rfl⟩ := hblock
        have htext : cs.take n = ['{'] := Terminal.take_of_spelling (t := .lbrace) rfl hlength
        obtain ⟨rfl, cs, rfl⟩ := eq_cons_of_take htext (Terminal.lexemeLength_bound hlength).2
        cases he
        have ih := ih false
        have hclosing := rest.exists_closing (k := 0) rfl hnext hcomplete'
          (by rwa [Nat.zero_add])
        refine (Reads.block_iff hinit hscan hfeed rest hclosing).trans ?_
        change _ ∧ Reads _ _ (maskFrom false (some '{') cs) _ _ _ _ ↔
          _ ∧ _ ∧ Kept ((tokenAt .lbrace p ['{']).signatureAfter true before us.head?) _ us
        rw [Token.signatureAfter_lbrace]
        constructor
        · rintro ⟨hempty, hreads⟩
          exact ⟨nofun, fun _ _ => hempty, ih.1 hreads⟩
        · rintro ⟨-, hempty, hkept⟩
          exact ⟨hempty rfl rfl, ih.2 hkept⟩
      · have happart := apart_of_feed hmem hfeed (rest.resumes (Or.inl rfl))
        have hb : k = .lbrace → b = false := fun hk => by simpa using fun hb => hblock ⟨hk, hb⟩
        have hmask := scan_mask hinit b prev cs
        rw [hscan, Terminal.maskFrom hkind hlength happart hb,
          Token.signatureAfter_eq hbeside hscan rest (Or.inl rfl)] at hmask
        rw [Terminal.maskFrom hkind hlength happart hb,
          Token.signatureAfter_eq hbeside hscan rest (Or.inl rfl),
          Reads.cons_iff (by rw [hmask, hn]) (Nat.zero_le _) hfeed, Kept, ih]
        constructor
        · intro hkept
          exact ⟨fun h => absurd h hkind, fun h hb' => absurd ⟨h, hb'⟩ hblock, hkept⟩
        · rintro ⟨-, -, hkept⟩
          exact hkept

end

end NativeBinding.Grammar
