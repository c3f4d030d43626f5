import NativeBinding.Proofs.Grammar.Lookahead

/-!
How far an inert region looks. A region is decided by its own characters and the one after it, and
whether one starts somewhere before a closing brace is decided by the character after that brace.
So the cells up to a live closing brace do not depend on the text beyond.
-/

namespace NativeBinding.Body

open Text

theorem length_le_throughMark {mark cs : List Char} (h : throughMark mark cs < cs.length) :
    mark.length ≤ throughMark mark cs := by
  induction cs with
  | nil => simp at h
  | cons c cs ih =>
    rw [throughMark] at h ⊢
    split
    · exact Nat.le_refl _
    · next hmark =>
      rw [if_neg hmark, List.length_cons] at h
      have := ih (by omega)
      omega

theorem throughMark_of_take {mark cs ds : List Char} (h : throughMark mark cs < cs.length)
    (htake : cs.take (throughMark mark cs) = ds.take (throughMark mark cs)) :
    throughMark mark ds = throughMark mark cs := by
  induction cs generalizing ds with
  | nil => simp at h
  | cons c cs ih =>
    rw [throughMark] at h htake ⊢
    by_cases hmark : mark.isPrefixOf (c :: cs)
    · rw [if_pos hmark] at h htake ⊢
      have hstart : mark <+: c :: cs := List.isPrefixOf_iff_prefix.1 hmark
      rw [← List.prefix_iff_eq_take.1 hstart] at htake
      cases ds with
      | nil =>
        have : mark = [] := by simpa using htake
        simp [this, throughMark]
      | cons d ds =>
        have : mark.isPrefixOf (d :: ds) :=
          List.isPrefixOf_iff_prefix.2 (List.prefix_iff_eq_take.2 htake)
        rw [throughMark, if_pos this]
    · rw [if_neg hmark] at h htake ⊢
      have hshort : throughMark mark cs < cs.length := by simpa using h
      have hlen := length_le_throughMark hshort
      cases ds with
      | nil => simp at htake
      | cons d ds =>
        simp only [List.take_succ_cons, List.cons.injEq] at htake
        obtain ⟨rfl, htake⟩ := htake
        have hmark' : ¬ mark.isPrefixOf (c :: ds) := by
          intro hmark'
          refine hmark (List.isPrefixOf_iff_prefix.2 (List.prefix_iff_eq_take.2 ?_))
          have heq := List.prefix_iff_eq_take.1 (List.isPrefixOf_iff_prefix.1 hmark')
          have htake' : (c :: cs).take mark.length = (c :: ds).take mark.length := by
            cases hm : mark.length with
            | zero => rfl
            | succ m =>
              have := congrArg (List.take m) htake
              rw [List.take_take, List.take_take, Nat.min_eq_left (by omega)] at this
              rw [List.take_succ_cons, List.take_succ_cons, this]
          rw [htake', ← heq]
        rw [throughMark, if_neg hmark', ih hshort htake]

theorem quotedLength_of_take {cs ds : List Char} (h : quotedLength cs < cs.length)
    (htake : cs.take (quotedLength cs) = ds.take (quotedLength cs)) :
    quotedLength ds = quotedLength cs := by
  have hcs : quotedLength cs = _ := Grammar.quotedLength_eq
  cases hrest : Grammar.stringRest cs with
  | none =>
    rw [hrest] at hcs
    simp only [Option.getD_none] at hcs
    omega
  | some n =>
    rw [hrest, Option.getD_some] at hcs
    rw [hcs] at htake ⊢
    rw [Grammar.quotedLength_eq, Grammar.stringRest_of_take hrest htake, Option.getD_some]

theorem rawLength_append {hashes : List Char} (h : ∀ c ∈ hashes, c = '#') (body : List Char) :
    rawLength (hashes ++ '"' :: body) =
      some (hashes.length + 1 + throughMark ('"' :: hashes) body) := by
  have htake : (hashes ++ '"' :: body).takeWhile (· == '#') = hashes := by
    rw [List.takeWhile_append_of_pos fun c hc => by simp [h c hc]]
    simp
  rw [rawLength, htake, List.drop_left]
  rfl

theorem rawLength_eq_some_iff {cs : List Char} {n : Nat} :
    rawLength cs = some n ↔ ∃ hashes body, cs = hashes ++ '"' :: body ∧ (∀ c ∈ hashes, c = '#') ∧
      n = hashes.length + 1 + throughMark ('"' :: hashes) body := by
  constructor
  · intro h
    rw [rawLength, Grammar.drop_length_takeWhile] at h
    split at h
    · next body hdrop =>
      have hall : ∀ c ∈ cs.takeWhile (· == '#'), c = '#' := fun c hc => by
        simpa using List.mem_takeWhile_imp hc
      refine ⟨cs.takeWhile (· == '#'), body, ?_, hall, (Option.some.inj h).symm⟩
      rw [← hdrop, List.takeWhile_append_dropWhile]
    · cases h
  · rintro ⟨hashes, body, rfl, hall, rfl⟩
    exact rawLength_append hall body

theorem rawLength_of_take {cs ds : List Char} {n : Nat} (h : rawLength cs = some n)
    (hn : n < cs.length) (htake : cs.take n = ds.take n) : rawLength ds = some n := by
  obtain ⟨hashes, body, rfl, hall, rfl⟩ := rawLength_eq_some_iff.1 h
  have hshort : throughMark ('"' :: hashes) body < body.length := by
    simp only [List.length_append, List.length_cons] at hn
    omega
  generalize hm : throughMark ('"' :: hashes) body = m at *
  -- The other text starts with the same hashes and quote.
  have htaken : (hashes ++ '"' :: body).take (hashes.length + 1 + m) =
      hashes ++ '"' :: body.take m := by
    rw [List.take_append, List.take_of_length_le (by omega)]
    congr 1
    rw [show hashes.length + 1 + m - hashes.length = m + 1 by omega, List.take_succ_cons]
  rw [htaken] at htake
  have hds : ds = hashes ++ '"' :: (body.take m ++ ds.drop (hashes.length + 1 + m)) := by
    conv => lhs; rw [← List.take_append_drop (hashes.length + 1 + m) ds, ← htake]
    simp
  rw [hds, rawLength_append hall]
  have htake' : body.take (throughMark ('"' :: hashes) body) =
      (body.take m ++ ds.drop (hashes.length + 1 + m)).take (throughMark ('"' :: hashes) body) := by
    rw [hm, List.take_append_of_le_length (by simp; omega), List.take_take, Nat.min_self]
  rw [throughMark_of_take (by rwa [hm]) htake', hm]

inductive CharText : List Char → Prop
  | plain {c : Char} (hslash : c ≠ '\\') (hquote : c ≠ '\'') (hline : c ≠ '\n') :
      CharText [c, '\'']
  | escape {c : Char} (hline : c ≠ '\n') : CharText ['\\', c, '\'']
  | byte {a b : Char} (ha : isHex a) (hb : isHex b) : CharText ['\\', 'x', a, b, '\'']
  | braced {run : List Char} (hrun : ∀ c ∈ run, (isHex c || c == '_') = true)
      (hpos : 1 ≤ run.length) (hlen : run.length ≤ 8) :
      CharText ('\\' :: 'u' :: '{' :: (run ++ ['}', '\'']))

theorem bracedEscapeLength_spec {cs : List Char} {n : Nat} (h : bracedEscapeLength cs = some n) :
    CharText ('\\' :: cs.take n) ∧ n ≤ cs.length := by
  rw [bracedEscapeLength.eq_def] at h
  split at h
  · next cs =>
    dsimp only at h
    split at h
    · next hrun =>
      simp only [Bool.and_eq_true, decide_eq_true_eq] at hrun
      obtain ⟨⟨hpos, hlen⟩, hclose⟩ := hrun
      obtain ⟨rest, hrest⟩ := List.isPrefixOf_iff_prefix.1 hclose
      rw [Grammar.drop_length_takeWhile] at hrest
      have hsplit := List.takeWhile_append_dropWhile (p := fun c => isHex c || c == '_') (l := cs)
      have hall : ∀ c ∈ cs.takeWhile fun c => isHex c || c == '_', (isHex c || c == '_') = true :=
        fun c hc => List.mem_takeWhile_imp (p := fun c => isHex c || c == '_') hc
      generalize cs.takeWhile (fun c => isHex c || c == '_') = run at *
      rw [← hrest] at hsplit
      subst hsplit
      cases h
      refine ⟨?_, by simp⟩
      have htake : ('u' :: '{' :: (run ++ (['}', '\''] ++ rest))).take (run.length + 4) =
          'u' :: '{' :: (run ++ ['}', '\'']) := by
        rw [List.take_succ_cons, List.take_succ_cons, ← List.append_assoc,
          List.take_append_of_le_length (by simp), List.take_of_length_le (by simp)]
      rw [htake]
      exact .braced hall hpos hlen
    · cases h
  · cases h

theorem charText_of_charLength {cs : List Char} {n : Nat} (h : charLength cs = some n) :
    CharText (cs.take n) ∧ n ≤ cs.length := by
  rw [charLength.eq_def] at h
  split at h
  · next cs =>
    obtain ⟨m, hm, rfl⟩ := Option.map_eq_some_iff.1 h
    cases hbraced : bracedEscapeLength cs with
    | some k =>
      rw [hbraced] at hm
      cases hm
      have := bracedEscapeLength_spec hbraced
      exact ⟨this.1, by simpa using this.2⟩
    | none =>
      rw [hbraced] at hm
      cases hbyte : byteEscapeLength cs with
      | some k =>
        rw [hbyte] at hm
        cases hm
        rw [byteEscapeLength.eq_def] at hbyte
        split at hbyte
        · split at hbyte
          · next hhex =>
            cases hbyte
            rw [Bool.and_eq_true] at hhex
            exact ⟨.byte hhex.1 hhex.2, by simp⟩
          · cases hbyte
        · cases hbyte
      | none =>
        rw [hbyte] at hm
        change plainEscapeLength cs = some m at hm
        rw [plainEscapeLength.eq_def] at hm
        split at hm
        · split at hm
          · cases hm
          · next hline =>
            cases hm
            exact ⟨.escape (by simpa using hline), by simp⟩
        · cases hm
  · next c rest hslash =>
    split at h
    · cases h
    · next hc =>
      cases h
      simp only [Bool.or_eq_true, beq_iff_eq, not_or] at hc
      exact ⟨.plain hslash hc.1 hc.2, by simp⟩
  · cases h

theorem charLength_append {w : List Char} (h : CharText w) (rest : List Char) :
    charLength (w ++ rest) = some w.length := by
  cases h with
  | @plain c hslash hquote hline =>
    rw [List.cons_append, charLength.eq_def]
    split
    · next heq => exact absurd (List.cons.inj heq).1 hslash
    · next heq =>
      cases heq
      simp [hquote, hline]
    · next hne => exact (hne _ _ rfl).elim
  | @escape c hline =>
    have hbraced : bracedEscapeLength (c :: '\'' :: rest) = none := by
      simp [bracedEscapeLength]
    have hbyte : byteEscapeLength (c :: '\'' :: rest) = none := by
      rw [byteEscapeLength.eq_def]
      split
      · next heq =>
        cases heq
        simp [show isHex '\'' = false by decide]
      · rfl
    simp [charLength, hbraced, hbyte, plainEscapeLength, hline]
  | @byte a b ha hb =>
    have hbraced : bracedEscapeLength ('x' :: a :: b :: '\'' :: rest) = none := by
      simp [bracedEscapeLength]
    simp [charLength, hbraced, byteEscapeLength, ha, hb]
  | @braced run hrun hpos hlen =>
    have htake : (run ++ '}' :: '\'' :: rest).takeWhile (fun c => isHex c || c == '_') = run := by
      rw [List.takeWhile_append_of_pos hrun]
      simp [show isHex '}' = false by decide]
    have hbraced : bracedEscapeLength ('u' :: '{' :: (run ++ '}' :: '\'' :: rest)) =
        some (run.length + 4) := by
      simp [bracedEscapeLength, htake, hlen, List.ne_nil_of_length_pos hpos]
    simp [charLength, hbraced]

theorem charLength_of_take {cs ds : List Char} {n : Nat} (h : charLength cs = some n)
    (htake : cs.take n = ds.take n) : charLength ds = some n := by
  obtain ⟨htext, hn⟩ := charText_of_charLength h
  have hds := charLength_append htext (ds.drop n)
  rw [List.length_take_of_le hn] at hds
  rwa [htake, List.take_append_drop] at hds

theorem CharText.mem_take {w : List Char} (h : CharText w) {c : Char}
    (hc : c ∈ w.take (w.length - 2)) : isHex c ∨ c ∈ ['\\', 'x', 'u', '{', '_'] := by
  cases h with
  | plain => simp at hc
  | escape =>
    obtain rfl : c = '\\' := by simpa using hc
    exact Or.inr (by decide)
  | @byte a b ha hb =>
    have hc : c = '\\' ∨ c = 'x' ∨ c = a := by simpa using hc
    rcases hc with rfl | rfl | rfl
    · exact Or.inr (by decide)
    · exact Or.inr (by decide)
    · exact Or.inl ha
  | @braced run hrun =>
    have hlen : ('\\' :: 'u' :: '{' :: (run ++ ['}', '\''])).length - 2 = run.length + 3 := by
      simp
    rw [hlen, List.take_succ_cons, List.take_succ_cons, List.take_succ_cons, List.take_left] at hc
    simp only [List.mem_cons] at hc
    rcases hc with rfl | rfl | rfl | hc
    · exact Or.inr (by decide)
    · exact Or.inr (by decide)
    · exact Or.inr (by decide)
    · have := hrun c hc
      rw [Bool.or_eq_true, beq_iff_eq] at this
      rcases this with hhex | rfl
      · exact Or.inl hhex
      · exact Or.inr (by decide)

theorem CharText.not_mem_take {w : List Char} (h : CharText w) : '}' ∉ w.take (w.length - 2) := by
  intro hmem
  rcases h.mem_take hmem with hhex | hother
  · exact absurd hhex (by decide)
  · exact absurd hother (by decide)

theorem exists_of_take_cons {c : Char} {cs ds : List Char} {n : Nat}
    (h : (c :: cs).take (n + 1) = ds.take (n + 1)) :
    ∃ es, ds = c :: es ∧ cs.take n = es.take n := by
  cases ds with
  | nil => simp at h
  | cons d ds =>
    simp only [List.take_succ_cons, List.cons.injEq] at h
    obtain ⟨rfl, h⟩ := h
    exact ⟨ds, rfl, h⟩

/-- A region is decided by its characters, and a line comment by the next one too. -/
theorem inertLength_of_take {prev : Option Char} {u v : List Char} {n : Nat}
    (h : inertLength prev u = some n) (hn : n < u.length) (htake : u.take n = v.take n)
    (hline : u.take 2 = ['/', '/'] → u[n]? = v[n]?) : inertLength prev v = some n := by
  rw [inertLength.eq_def] at h
  split at h
  · next cs =>
    obtain rfl : 2 + (cs.takeWhile (· != '\n')).length = n := Option.some.inj h
    have hnext := hline rfl
    rw [Nat.add_comm] at htake
    obtain ⟨v, rfl, hslash⟩ := exists_of_take_cons htake
    obtain ⟨ds, rfl, hrest⟩ := exists_of_take_cons hslash
    have hhead : (cs.drop (cs.takeWhile (· != '\n')).length).head? =
        (ds.drop (cs.takeWhile (· != '\n')).length).head? := by
      rw [List.head?_drop, List.head?_drop]
      rwa [Nat.add_comm, List.getElem?_cons_succ, List.getElem?_cons_succ,
        List.getElem?_cons_succ, List.getElem?_cons_succ] at hnext
    simp [inertLength, Grammar.takeWhile_eq_of_take hrest hhead]
  · next cs =>
    obtain rfl : 2 + throughMark ['*', '/'] cs = n := Option.some.inj h
    rw [Nat.add_comm] at htake
    obtain ⟨v, rfl, hslash⟩ := exists_of_take_cons htake
    obtain ⟨ds, rfl, hrest⟩ := exists_of_take_cons hslash
    have hshort : throughMark ['*', '/'] cs < cs.length := by
      simp only [List.length_cons] at hn
      omega
    simp [inertLength, throughMark_of_take hshort hrest]
  · next cs =>
    split at h
    · cases h
    · next hprev =>
      obtain ⟨m, hm, rfl⟩ := Option.map_eq_some_iff.1 h
      obtain ⟨ds, rfl, hrest⟩ := exists_of_take_cons htake
      have hshort : m < cs.length := by simpa using hn
      simp [inertLength, hprev, rawLength_of_take hm hshort hrest]
  · next cs =>
    obtain rfl : 1 + quotedLength cs = n := Option.some.inj h
    rw [Nat.add_comm] at htake
    obtain ⟨ds, rfl, hrest⟩ := exists_of_take_cons htake
    have hshort : quotedLength cs < cs.length := by
      simp only [List.length_cons] at hn
      omega
    simp [inertLength, quotedLength_of_take hshort hrest]
  · next cs =>
    obtain ⟨m, hm, rfl⟩ := Option.map_eq_some_iff.1 h
    obtain ⟨ds, rfl, hrest⟩ := exists_of_take_cons htake
    simp [inertLength, charLength_of_take hm hrest]
  · cases h

theorem rawLength_before {w rest z : List Char} {c d : Char}
    (h : rawLength (w ++ d :: rest) = none) (hquote : c ≠ '"') (hhash : c ≠ '#') :
    rawLength (w ++ c :: z) = none := by
  cases hsome : rawLength (w ++ c :: z) with
  | none => rfl
  | some m =>
    obtain ⟨hashes, body, htext, hall, -⟩ := rawLength_eq_some_iff.1 hsome
    obtain ⟨v, rfl⟩ : ∃ v, w = hashes ++ '"' :: v := by
      rcases List.append_eq_append_iff.1 htext with ⟨a, rfl, ha⟩ | ⟨a, rfl, ha⟩
      · cases a with
        | nil => exact absurd (List.cons.inj ha).1 hquote
        | cons e a =>
          obtain rfl : c = e := (List.cons.inj ha).1
          exact absurd (hall c (by simp)) hhash
      · cases a with
        | nil => exact absurd (List.cons.inj ha).1.symm hquote
        | cons e a =>
          cases ha
          exact ⟨a, rfl⟩
    rw [List.append_assoc, List.cons_append, rawLength_append hall] at h
    cases h

theorem charLength_before_brace {w rest : List Char} {c : Char}
    (h : charLength (w ++ '}' :: c :: rest) = none) (rest' : List Char) :
    charLength (w ++ '}' :: c :: rest') = none := by
  cases hsome : charLength (w ++ '}' :: c :: rest') with
  | none => rfl
  | some m =>
    exfalso
    obtain ⟨htext, hle⟩ := charText_of_charLength hsome
    by_cases hshort : m ≤ w.length + 2
    · have htake (r : List Char) : (w ++ '}' :: c :: r).take m = (w ++ ['}', c]).take m := by
        rw [show w ++ '}' :: c :: r = (w ++ ['}', c]) ++ r by simp,
          List.take_append_of_le_length (by simpa using hshort)]
      rw [charLength_of_take hsome ((htake rest').trans (htake rest).symm)] at h
      cases h
    · refine htext.not_mem_take ?_
      rw [List.length_take_of_le hle, List.take_take, Nat.min_eq_left (by omega),
        List.take_append, show m - 2 - w.length = (m - 3 - w.length) + 1 by omega]
      simp

/-- No region starts before other text, if no raw string and no character literal do and no comment
starts where the texts meet. -/
theorem inertLength_before {prev : Option Char} {w rest rest' : List Char} (hw : w ≠ [])
    (h : inertLength prev (w ++ rest) = none)
    (hraw : ∀ v, rawLength (v ++ rest) = none → rawLength (v ++ rest') = none)
    (hchar : ∀ v, charLength (v ++ rest) = none → charLength (v ++ rest') = none)
    (hslash : w = ['/'] → rest'.head? ≠ some '/') (hstar : rest'.head? ≠ some '*') :
    inertLength prev (w ++ rest') = none := by
  cases hsome : inertLength prev (w ++ rest') with
  | none => rfl
  | some n =>
    exfalso
    obtain ⟨e, w, rfl⟩ := List.exists_cons_of_ne_nil hw
    rw [List.cons_append] at h hsome
    rw [inertLength.eq_def] at hsome
    split at hsome
    · next heq =>
      obtain ⟨rfl, htail⟩ := List.cons.inj heq
      cases w with
      | nil => exact hslash rfl (congrArg List.head? htail)
      | cons e w =>
        cases htail
        cases h
    · next heq =>
      obtain ⟨rfl, htail⟩ := List.cons.inj heq
      cases w with
      | nil => exact hstar (congrArg List.head? htail)
      | cons e w =>
        cases htail
        cases h
    · next heq =>
      obtain ⟨rfl, rfl⟩ := List.cons.inj heq
      split at hsome
      · cases hsome
      · next hprev =>
        rw [hraw w (by simpa [inertLength, hprev] using h)] at hsome
        cases hsome
    · next heq =>
      obtain ⟨rfl, -⟩ := List.cons.inj heq
      cases h
    · next heq =>
      obtain ⟨rfl, rfl⟩ := List.cons.inj heq
      rw [hchar w (by simpa [inertLength] using h)] at hsome
      cases hsome
    · cases hsome

section

variable {prev : Option Char} {text : List Char} {n : Nat} {as bs : List Cell} {c : Char}

theorem exists_of_region (h : inertLength prev text = some n)
    (hcells : cellsFrom 0 prev text = as ++ ⟨c, false⟩ :: bs) :
    n ≤ as.length ∧ ∃ as', as = run true (text.take n) ++ as' ∧
      cellsFrom 0 (lastOf prev (text.take n)) (text.drop n) = as' ++ ⟨c, false⟩ :: bs := by
  rw [cellsFrom_inert h] at hcells
  obtain ⟨as', rfl, hrest⟩ : ∃ as', as = run true (text.take n) ++ as' ∧
      cellsFrom 0 (lastOf prev (text.take n)) (text.drop n) = as' ++ ⟨c, false⟩ :: bs := by
    rcases List.append_eq_append_iff.1 hcells with ⟨as', has, hrest⟩ | ⟨as', hrun, hrest⟩
    · exact ⟨as', has, hrest⟩
    · cases as' with
      | nil => exact ⟨[], by simpa using hrun.symm, by simpa using hrest.symm⟩
      | cons a as' =>
        have hmem : (⟨c, false⟩ : Cell) ∈ run true (text.take n) := by
          rw [hrun, (List.cons.inj hrest).1]
          simp
        obtain ⟨d, -, hd⟩ := List.mem_map.1 hmem
        cases hd
  refine ⟨?_, as', rfl, hrest⟩
  have hne : text.drop n ≠ [] := by
    intro hnil
    rw [hnil] at hrest
    simp [cellsFrom] at hrest
  have := List.length_pos_iff.2 hne
  simp only [List.length_drop] at this
  simp only [List.length_append, length_run, List.length_take]
  omega

/-- The cells before a live one stay as they are before other text, if regions neither start nor end
otherwise before it. -/
theorem cellsFrom_before {w rest rest' : List Char}
    (hraw : ∀ v, rawLength (v ++ rest) = none → rawLength (v ++ rest') = none)
    (hchar : ∀ v, charLength (v ++ rest) = none → charLength (v ++ rest') = none)
    (hstar : rest'.head? ≠ some '*')
    (hends : ∀ {prev v n}, inertLength prev (v ++ rest) = some n → n ≤ v.length →
      inertLength prev (v ++ rest') = some n)
    (h : cellsFrom 0 prev (w ++ rest) = as ++ ⟨c, false⟩ :: bs) (hlen : as.length = w.length)
    (hslash : as.getLast? = some ⟨'/', false⟩ → rest'.head? ≠ some '/') :
    cellsFrom 0 prev (w ++ rest') = as ++ cellsFrom 0 (lastOf prev w) rest' := by
  -- By the length of the text before, since a region is passed as a whole.
  generalize hk : w.length = k at hlen
  induction k using Nat.strongRecOn generalizing prev w as with
  | ind k ih =>
    cases w with
    | nil =>
      obtain rfl : as = [] := List.eq_nil_of_length_eq_zero (hlen.trans hk.symm)
      rfl
    | cons e w =>
      cases hregion : inertLength prev (e :: w ++ rest) with
      | none =>
        cases as with
        | nil => simp [← hk] at hlen
        | cons a as =>
          have hlive : inertLength prev (e :: (w ++ rest)) = none := hregion
          rw [List.cons_append, cellsFrom_live hlive] at h
          obtain ⟨rfl, hrest⟩ := List.cons.inj h
          have hmeet : e :: w = ['/'] → rest'.head? ≠ some '/' := by
            intro heq
            cases heq
            obtain rfl : as = [] := List.eq_nil_of_length_eq_zero (by simpa [← hk] using hlen)
            exact hslash rfl
          have hslash' : as.getLast? = some ⟨'/', false⟩ → rest'.head? ≠ some '/' := by
            intro hlast
            refine hslash ?_
            rw [List.getLast?_cons, hlast]
            rfl
          have hlive' : inertLength prev (e :: (w ++ rest')) = none :=
            inertLength_before (by simp) hregion hraw hchar hmeet hstar
          rw [List.cons_append, cellsFrom_live hlive', List.cons_append, lastOf_cons,
            ih w.length (by simp [← hk]) hrest hslash' rfl (by simpa [← hk] using hlen)]
      | some n =>
        obtain ⟨hn, as', rfl, hrest⟩ := exists_of_region hregion h
        rw [hlen, ← hk] at hn
        have hpos := inertLength_pos hregion
        rw [List.take_append_of_le_length hn] at hlen hslash hrest ⊢
        rw [List.drop_append_of_le_length hn] at hrest
        have hlen' : as'.length = ((e :: w).drop n).length := by
          rw [List.length_append, length_run, List.length_take_of_le hn] at hlen
          rw [List.length_drop, hk]
          omega
        have hslash' : as'.getLast? = some ⟨'/', false⟩ → rest'.head? ≠ some '/' := by
          intro hlast
          refine hslash ?_
          rw [List.getLast?_append, hlast]
          rfl
        rw [cellsFrom_inert (hends hregion hn), List.take_append_of_le_length hn,
          List.drop_append_of_le_length hn,
          ih _ (by rw [List.length_drop, hk]; omega) hrest hslash' rfl hlen', ← lastOf_append,
          List.take_append_drop, List.append_assoc]

theorem cellsFrom_before_brace {w rest : List Char} {d : Char}
    (h : cellsFrom 0 prev (w ++ '}' :: d :: rest) =
      as ++ ⟨'}', false⟩ :: cellsFrom 0 (some '}') (d :: rest))
    (hlen : as.length = w.length) (rest' : List Char) :
    cellsFrom 0 prev (w ++ '}' :: d :: rest') =
      as ++ ⟨'}', false⟩ :: cellsFrom 0 (some '}') (d :: rest') := by
  rw [← cellsFrom_rbrace (lastOf prev w)]
  refine cellsFrom_before (fun v hv => rawLength_before hv (by decide) (by decide))
    (fun v hv => charLength_before_brace hv rest') (by simp) ?_ h hlen (by simp)
  intro prev v n hregion hn
  have htake (r : List Char) : (v ++ '}' :: d :: r).take n = v.take n :=
    List.take_append_of_le_length hn
  have hnext (r : List Char) : (v ++ '}' :: d :: r)[n]? = (v ++ ['}'])[n]? := by
    rw [show v ++ '}' :: d :: r = (v ++ ['}']) ++ d :: r by simp,
      List.getElem?_append_left (by simpa using Nat.lt_succ_of_le hn)]
  refine inertLength_of_take hregion ?_ ((htake rest).trans (htake rest').symm)
    fun _ => (hnext rest).trans (hnext rest').symm
  simp only [List.length_append, List.length_cons]
  omega

theorem alike_before_brace {u rest : List Char}
    (h : cellsFrom 0 prev (u ++ '{' :: rest) = as ++ ⟨'{', false⟩ :: bs)
    (hlen : as.length = u.length) (rest' : List Char) :
    Alike prev (u ++ '{' :: rest) (u ++ '{' :: rest') := by
  have hagree (v : List Char) : Agree (v ++ '{' :: rest) (v ++ '{' :: rest') := by
    induction v with
    | nil => exact .brace rest rest'
    | cons c v ih => exact .cons c ih
  refine ⟨hagree u, fun n hn => ?_⟩
  have hle := (exists_of_region hn h).1
  rw [hlen] at hle
  rw [List.take_append_of_le_length hle, List.take_append_of_le_length hle,
    List.drop_append_of_le_length hle, List.drop_append_of_le_length hle]
  exact ⟨rfl, hagree _⟩

end

end NativeBinding.Body
