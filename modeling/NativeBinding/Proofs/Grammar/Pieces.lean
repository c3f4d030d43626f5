import NativeBinding.Proofs.Grammar.Lookahead
import NativeBinding.Proofs.Grammar.Nesting

/-!
How the mask passes over gaps and lexemes. A comment, a string or a doc comment is one inert run,
and everything else that the grammar reads is one live run, as long as what follows cannot turn its
last letter into a raw string or its lifetime into a character.
-/

namespace NativeBinding.Grammar

open Text Body

theorem isPlain_of_isGapSpace {c : Char} (h : isGapSpace c) : isPlain c := by
  rcases isGapSpace_cases h with rfl | rfl | rfl | rfl | rfl <;> decide

theorem isQuiet_of_isGapSpace {c : Char} (h : isGapSpace c) : isQuiet c := by
  rcases isGapSpace_cases h with rfl | rfl | rfl | rfl | rfl <;> decide

theorem Gap.cells {g : Gap} {cs : List Char} {n : Nat} (h : g.length cs = some n)
    (prev : Option Char) :
    cellsFrom 0 prev cs = run (Kind.gap g).isRegion (cs.take n) ++
      cellsFrom 0 (lastOf prev (cs.take n)) (cs.drop n) := by
  cases g with
  | blockComment => exact cellsFrom_inert (Kind.inertLength_eq (.gap .blockComment) rfl h prev)
  | lineComment => exact cellsFrom_inert (Kind.inertLength_eq (.gap .lineComment) rfl h prev)
  | space =>
    have hplain : ∀ c ∈ cs.take n, isPlain c := fun c hc =>
      isPlain_of_isGapSpace (Gap.space_chars h c hc)
    have := cellsFrom_plain hplain prev (cs.drop n)
    rwa [List.take_append_drop] at this

theorem Gap.depthAfter {g : Gap} {cs : List Char} {n : Nat} (h : g.length cs = some n) (d : Nat) :
    depthAfter d (run (Kind.gap g).isRegion (cs.take n)) = some d := by
  cases g with
  | blockComment | lineComment => exact depthAfter_inert d _
  | space =>
    have hne {c : Char} (hc : isGapSpace c = false) : c ∉ cs.take n := by
      intro hmem
      rw [Gap.space_chars h c hmem] at hc
      cases hc
    exact depthAfter_live (hne (by decide)) (hne (by decide)) d

theorem Gap.maskCells {g : Gap} {cs : List Char} {n : Nat} (h : g.length cs = some n) (b : Bool)
    (prev : Option Char) (rest : List Cell) :
    maskCells (.scan b) prev (run (Kind.gap g).isRegion (cs.take n) ++ rest) =
      cs.take n ++ maskCells (.scan b) (lastOf prev (cs.take n)) rest := by
  cases g with
  | blockComment | lineComment => exact maskCells_inert b prev _ rest
  | space =>
    exact maskCells_quiet (fun c hc => isQuiet_of_isGapSpace (Gap.space_chars h c hc)) b prev rest

theorem Gap.maskFrom {g : Gap} {cs : List Char} {n : Nat} (h : g.length cs = some n) (b : Bool)
    (prev : Option Char) :
    maskFrom b prev cs = cs.take n ++ maskFrom b (lastOf prev (cs.take n)) (cs.drop n) := by
  rw [Body.maskFrom, Gap.cells h, Gap.maskCells h]
  rfl

/-- What must not follow a lexeme. -/
def Terminal.Apart (t : Terminal) (rest : List Char) : Prop :=
  (t = .ident ∨ t = .lifetime → opensRaw rest = false) ∧
    (t = .lifetime → rest.head? ≠ some '\'')

theorem cellsFrom_raw {name rest : List Char} (hne : name ≠ []) (hname : ∀ c ∈ name, isIdentRest c)
    (hrest : opensRaw rest = false) (prev : Option Char) :
    cellsFrom 0 prev ('r' :: '#' :: name ++ rest) =
      run false ('r' :: '#' :: name) ++ cellsFrom 0 (lastOf prev ('r' :: '#' :: name)) rest := by
  have hraw : rawLength ('#' :: (name ++ rest)) = none := by
    cases name with
    | nil => exact absurd rfl hne
    | cons c name =>
      have hc := hname c List.mem_cons_self
      have hhash : c ≠ '#' := ne_of_holds hc (by decide)
      have hquote : c ≠ '"' := ne_of_holds hc (by decide)
      simp [rawLength, hhash, hquote]
  rw [List.cons_append, List.cons_append, cellsFrom_live (inertLength_eq_none (by decide)
    (by decide) (by decide) fun _ => Or.inr hraw), cellsFrom_plain_cons (by decide),
    cellsFrom_word (fun c hc => isWord_of_isIdentRest (hname c hc)) _ fun _ => hrest]
  rfl

theorem charLength_eq_none {name rest : List Char} (hne : name ≠ [])
    (hname : ∀ c ∈ name, isIdentRest c) (hrest : rest.head? ≠ some '\'') :
    charLength (name ++ rest) = none := by
  cases name with
  | nil => exact absurd rfl hne
  | cons c name =>
    have hslash : c ≠ '\\' := ne_of_holds (hname c List.mem_cons_self) (by decide)
    have hnext : (name ++ rest).head? ≠ some '\'' := by
      cases name with
      | nil => exact hrest
      | cons d name =>
        have : d ≠ '\'' := ne_of_holds (hname d (by simp)) (by decide)
        simpa using this
    rw [List.cons_append, charLength.eq_def]
    split
    · next heq =>
      cases heq
      exact absurd rfl hslash
    · next heq =>
      rw [(List.cons.inj heq).2] at hnext
      exact absurd rfl hnext
    · rfl

theorem cellsFrom_lifetime {name rest : List Char} (hne : name ≠ [])
    (hname : ∀ c ∈ name, isIdentRest c) (hraw : opensRaw rest = false)
    (hrest : rest.head? ≠ some '\'') (prev : Option Char) :
    cellsFrom 0 prev ('\'' :: name ++ rest) =
      run false ('\'' :: name) ++ cellsFrom 0 (lastOf prev ('\'' :: name)) rest := by
  have hchar : inertLength prev ('\'' :: (name ++ rest)) = none := by
    simp [inertLength, charLength_eq_none hne hname hrest]
  rw [List.cons_append, cellsFrom_live hchar,
    cellsFrom_word (fun c hc => isWord_of_isIdentRest (hname c hc)) _ fun _ => hraw]
  rfl

theorem isPlain_of_number {c : Char} (h : isDigit c ∨ c = '.' ∨ c = '-') : isPlain c := by
  rcases h with h | rfl | rfl
  · have hne {d : Char} (hd : isDigit d = false) : (c != d) = true := by
      simpa using ne_of_holds h hd
    rw [isPlain, hne (by decide), hne (by decide), hne (by decide), hne (by decide)]
    rfl
  · decide
  · decide

theorem Terminal.cells {t : Terminal} (ht : t ≠ .initializer) {cs : List Char} {n : Nat}
    (h : t.lexemeLength cs = some n) (happart : t.Apart (cs.drop n)) (prev : Option Char) :
    cellsFrom 0 prev cs = run (Kind.terminal t).isRegion (cs.take n) ++
      cellsFrom 0 (lastOf prev (cs.take n)) (cs.drop n) := by
  have hsplit := List.take_append_drop n cs
  cases t with
  | docComment =>
    exact cellsFrom_inert (Kind.inertLength_eq (.terminal .docComment) rfl h prev)
  | string => exact cellsFrom_inert (Kind.inertLength_eq (.terminal .string) rfl h prev)
  | initializer => exact absurd rfl ht
  | ident =>
    obtain ⟨⟨raw, name, htext, hraw, hne, hname⟩, -⟩ := identLength_spec h
    have hrest := happart.1 (Or.inl rfl)
    rw [htext] at hsplit ⊢
    conv => lhs; rw [← hsplit]
    rcases hraw with rfl | rfl
    · exact cellsFrom_word (fun c hc => isWord_of_isIdentRest (hname c hc)) prev fun _ => hrest
    · exact cellsFrom_raw hne hname hrest prev
  | lifetime =>
    obtain ⟨⟨name, htext, hne, hname⟩, -⟩ := lifetimeLength_spec h
    rw [htext] at hsplit ⊢
    conv => lhs; rw [← hsplit]
    exact cellsFrom_lifetime hne hname (happart.1 (Or.inr rfl)) (happart.2 rfl) prev
  | number =>
    have := cellsFrom_plain (fun c hc => (isPlain_of_number (numberLength_chars h c hc))) prev
      (cs.drop n)
    rwa [hsplit] at this
  | asyncWord | constWord | falseWord | implWord | selfWord | trueWord | dynWord | mutWord
  | pubWord | fnWord | wildcard =>
    rw [Terminal.take_of_spelling (by rfl) h] at hsplit ⊢
    conv => lhs; rw [← hsplit]
    exact cellsFrom_word (forall_mem_of_all (by decide)) prev fun h => absurd h (by decide)
  | _ =>
    rw [Terminal.take_of_spelling (by rfl) h] at hsplit ⊢
    conv => lhs; rw [← hsplit]
    exact cellsFrom_plain (forall_mem_of_all (by decide)) prev _

theorem not_mem_of_holds {p : Char → Prop} {w : List Char} (hw : ∀ c ∈ w, p c) {c : Char}
    (hc : ¬ p c) : c ∉ w :=
  fun hmem => hc (hw c hmem)

theorem Terminal.depthAfter_cells {t : Terminal} (ht : t ≠ .initializer) {cs : List Char} {n : Nat}
    (h : t.lexemeLength cs = some n) (d : Nat) :
    Body.depthAfter d (run (Kind.terminal t).isRegion (cs.take n)) = t.depthAfter d := by
  cases t with
  | docComment | string => exact depthAfter_inert d _
  | initializer => exact absurd rfl ht
  | ident =>
    obtain ⟨⟨raw, name, htext, hraw, -, hname⟩, -⟩ := identLength_spec h
    have hnot {c : Char} (hc : isIdentRest c = false) (hraw' : c ∉ ['r', '#']) : c ∉ cs.take n := by
      rw [htext, List.mem_append]
      rintro (hmem | hmem)
      · rcases hraw with rfl | rfl
        · cases hmem
        · exact hraw' hmem
      · exact ne_of_holds (hname c hmem) hc rfl
    exact depthAfter_live (hnot (by decide) (by decide)) (hnot (by decide) (by decide)) d
  | lifetime =>
    obtain ⟨⟨name, htext, -, hname⟩, -⟩ := lifetimeLength_spec h
    have hnot {c : Char} (hc : isIdentRest c = false) (htick : c ≠ '\'') : c ∉ cs.take n := by
      rw [htext, List.mem_cons]
      rintro (rfl | hmem)
      · exact htick rfl
      · exact ne_of_holds (hname c hmem) hc rfl
    exact depthAfter_live (hnot (by decide) (by decide)) (hnot (by decide) (by decide)) d
  | number =>
    have hchars := numberLength_chars h
    exact depthAfter_live (not_mem_of_holds hchars (by decide))
      (not_mem_of_holds hchars (by decide)) d
  | lbrace =>
    rw [Terminal.take_of_spelling (by rfl) h]
    rfl
  | rbrace =>
    rw [Terminal.take_of_spelling (by rfl) h]
    cases d <;> rfl
  | _ =>
    rw [Terminal.take_of_spelling (by rfl) h]
    exact depthAfter_live (by decide) (by decide) d

/-- Whether a signature is under way after a lexeme. A word that is joined to the one before it, or
continued by the one after it, does not count. -/
def signatureAfter (inSignature joined continued : Bool) : List Char → Bool
  | [';'] | ['{'] => false
  | 'r' :: '#' :: name | '\'' :: name => inSignature || opensSignature false name continued
  | text => inSignature || opensSignature joined text continued

theorem signatureAfter_word {w : List Char} (hw : ∀ c ∈ w, isWord c) (b joined continued : Bool) :
    signatureAfter b joined continued w = (b || opensSignature joined w continued) := by
  unfold signatureAfter
  split
  · exact absurd (hw ';' (by simp)) (by decide)
  · exact absurd (hw '{' (by simp)) (by decide)
  · exact absurd (hw '#' (by simp)) (by decide)
  · exact absurd (hw '\'' (by simp)) (by decide)
  · rfl

theorem signatureAfter_other {c : Char} (hc : isQuiet c ∧ c ≠ '\'' ∧ c ≠ 'r') (w : List Char)
    (b joined continued : Bool) : signatureAfter b joined continued (c :: w) = b := by
  simp only [isQuiet, Bool.and_eq_true, bne_iff_ne] at hc
  unfold signatureAfter
  split <;> simp_all [opensSignature]

theorem signatureAfter_quiet {w : List Char} (hw : ∀ c ∈ w, isQuiet c ∧ c ≠ '\'' ∧ c ≠ 'r')
    (b joined continued : Bool) : signatureAfter b joined continued w = b := by
  cases w with
  | nil => simp [signatureAfter, opensSignature]
  | cons c w => exact signatureAfter_other (hw c List.mem_cons_self) w b joined continued

theorem signatureAfter_take {c : Char} (hc : isQuiet c ∧ c ≠ '\'' ∧ c ≠ 'r') {n : Nat} (hn : 0 < n)
    (cs : List Char) (b joined continued : Bool) :
    signatureAfter b joined continued ((c :: cs).take n) = b := by
  obtain ⟨m, rfl⟩ := Nat.exists_eq_succ_of_ne_zero (Nat.ne_of_gt hn)
  exact signatureAfter_other hc _ b joined continued

theorem head?_of_cells {p : Char → Bool} {cs : List Char} {cells : List Cell}
    (h : cells.map (·.char) = cs) : (cells.head?.any fun c => p c.char) = cs.head?.any p := by
  rw [← h]
  cases cells <;> rfl

theorem numberLength_quiet {cs : List Char} {n : Nat} (h : numberLength cs = some n) :
    ∀ c ∈ cs.take n, isQuiet c ∧ c ≠ '\'' ∧ c ≠ 'r' := by
  intro c hc
  rcases numberLength_chars h c hc with hc | rfl | rfl
  · have hne {d : Char} (hd : isDigit d = false) : (c != d) = true := by
      simpa using ne_of_holds hc hd
    refine ⟨?_, ne_of_holds hc (by decide), ne_of_holds hc (by decide)⟩
    rw [isQuiet, hne (by decide), hne (by decide), hne (by decide)]
    rfl
  · decide
  · decide

theorem Terminal.maskCells {t : Terminal} (ht : t ≠ .initializer) {cs : List Char} {n : Nat}
    (h : t.lexemeLength cs = some n) {b : Bool} (hb : t = .lbrace → b = false)
    (prev : Option Char) {rest : List Cell} (hrest : rest.map (·.char) = cs.drop n) :
    Body.maskCells (.scan b) prev (run (Kind.terminal t).isRegion (cs.take n) ++ rest) =
      cs.take n ++ Body.maskCells (.scan (signatureAfter b (prev.any isWord)
        ((cs.drop n).head?.any isWord) (cs.take n))) (lastOf prev (cs.take n)) rest := by
  have hnext := head?_of_cells (p := isWord) hrest
  have word {w : List Char} (hw : ∀ c ∈ w, isWord c)
      (hcut : w = ['f'] → rest.head?.map (·.char) ≠ some 'n') (joined : Option Char) :
      Body.maskCells (.scan b) joined (run false w ++ rest) = w ++ Body.maskCells
        (.scan (b || opensSignature (joined.any isWord) w ((cs.drop n).head?.any isWord)))
        (lastOf joined w) rest := by
    rw [← hnext]
    exact maskCells_word hw b joined hcut
  have cut {w : List Char} (hlast : ∀ c, (cs.drop n).head? = some c → isIdentRest c = false) :
      w = ['f'] → rest.head?.map (·.char) ≠ some 'n' := by
    intro _ hn
    rw [← List.head?_map, hrest] at hn
    exact absurd (hlast 'n' hn) (by decide)
  cases t with
  | initializer => exact absurd rfl ht
  | docComment =>
    have hpos := (Terminal.lexemeLength_bound h).1
    obtain ⟨text, rfl, -⟩ := docCommentLength_eq_some_iff.1 h
    rw [signatureAfter_take (by decide) hpos]
    exact maskCells_inert b prev _ rest
  | string =>
    have hpos := (Terminal.lexemeLength_bound h).1
    obtain ⟨text, m, rfl, -⟩ := stringLength_eq_some_iff.1 h
    rw [signatureAfter_take (by decide) hpos]
    exact maskCells_inert b prev _ rest
  | ident =>
    obtain ⟨⟨raw, name, htext, hraw, hne, hname⟩, hlast⟩ := identLength_spec h
    have hword : ∀ c ∈ name, isWord c := fun c hc => isWord_of_isIdentRest (hname c hc)
    rw [htext]
    rcases hraw with rfl | rfl
    · rw [List.nil_append, signatureAfter_word hword]
      exact word hword (cut hlast) prev
    · have hname := word hword (cut hlast) (some '#')
      rw [show (some '#').any isWord = false by decide] at hname
      change Body.maskCells (.scan b) prev
          (⟨'r', false⟩ :: ⟨'#', false⟩ :: (run false name ++ rest)) =
        'r' :: '#' :: (name ++ _)
      rw [maskCells_quiet_cons b prev (by decide), maskCells_quiet_cons b _ (by decide), hname]
      rfl
  | lifetime =>
    obtain ⟨⟨name, htext, -, hname⟩, hlast⟩ := lifetimeLength_spec h
    have hname := word (fun c hc => isWord_of_isIdentRest (hname c hc)) (cut hlast) (some '\'')
    rw [show (some '\'').any isWord = false by decide] at hname
    rw [htext]
    change Body.maskCells (.scan b) prev (⟨'\'', false⟩ :: (run false name ++ rest)) =
      '\'' :: (name ++ _)
    rw [maskCells_quiet_cons b prev (by decide), hname]
    rfl
  | number =>
    have hquiet := numberLength_quiet h
    rw [show (Kind.terminal .number).isRegion = false from rfl,
      maskCells_quiet fun c hc => (hquiet c hc).1, signatureAfter_quiet hquiet]
  | semicolon =>
    rw [Terminal.take_of_spelling (by rfl) h]
    exact maskCells_semicolon b prev rest
  | lbrace =>
    obtain rfl := hb rfl
    rw [Terminal.take_of_spelling (by rfl) h]
    exact maskCells_brace_outside prev rest
  | asyncWord | constWord | falseWord | implWord | selfWord | trueWord | dynWord | mutWord
  | pubWord | fnWord | wildcard =>
    rw [Terminal.take_of_spelling (by rfl) h, signatureAfter_word (forall_mem_of_all (by decide))]
    exact word (forall_mem_of_all (by decide)) (fun h => absurd h (by decide)) prev
  | _ =>
    rw [Terminal.take_of_spelling (by rfl) h]
    refine (maskCells_quiet (forall_mem_of_all (by decide)) b prev rest).trans ?_
    rw [signatureAfter_quiet (forall_mem_of_all (by decide))]

theorem Terminal.maskFrom {t : Terminal} (ht : t ≠ .initializer) {cs : List Char} {n : Nat}
    (h : t.lexemeLength cs = some n) (happart : t.Apart (cs.drop n)) {b : Bool}
    (hb : t = .lbrace → b = false) (prev : Option Char) :
    maskFrom b prev cs = cs.take n ++ maskFrom (signatureAfter b (prev.any isWord)
      ((cs.drop n).head?.any isWord) (cs.take n)) (lastOf prev (cs.take n)) (cs.drop n) := by
  rw [Body.maskFrom, Terminal.cells ht h happart,
    Terminal.maskCells ht h hb prev (cellsFrom_char _ _ _)]
  rfl

end NativeBinding.Grammar
