import NativeBinding.Proofs.Grammar.Insertion

/-!
Initializers and bodies on the way to a place where a filler stands, and from them the whole way.
White space behind an initializer is masked as part of it. A body is passed as a whole, so the place
is at its start, at its end or outside.
-/

namespace NativeBinding.Grammar

open Text Body

section

variable {s s₁ r : State} {p : Position} {b : Bool} {prev : Option Char}
  {v y rest rest' : List Char}

theorem blockComment_of_complete (h : Complete v) (hne : v ≠ [])
    (hnone : Gap.blockComment.length (v ++ ';' :: rest) = none) (hstar : rest'.head? ≠ some '*') :
    Gap.blockComment.length (v ++ rest') = none := by
  by_contra hsome
  rw [← ne_eq, Option.ne_none_iff_exists'] at hsome
  obtain ⟨m, hm⟩ := hsome
  obtain ⟨w, rfl⟩ : ∃ w, v = '/' :: '*' :: w := by
    obtain ⟨c, v, rfl⟩ := List.exists_cons_of_ne_nil hne
    obtain ⟨cs, k, heq, -⟩ := Gap.blockComment_eq_some_iff.1 hm
    obtain ⟨rfl, htail⟩ := List.cons.inj heq
    cases v with
    | nil =>
      have htail : rest' = '*' :: cs := htail
      rw [htail] at hstar
      exact absurd rfl hstar
    | cons d v =>
      obtain rfl : d = '*' := (List.cons.inj htail).1
      exact ⟨v, rfl⟩
  have hrest : commentRest (w ++ ';' :: rest) = none := by
    rw [List.cons_append, List.cons_append, Gap.length, Option.map_eq_none_iff] at hnone
    exact hnone
  have hregion : inertLength none ('/' :: '*' :: w ++ ';' :: rest) =
      some (2 + (w ++ ';' :: rest).length) := by
    rw [List.cons_append, List.cons_append, inertLength, Grammar.throughMark_eq, hrest]
    rfl
  have hle := (exists_of_region hregion (h.ends rest)).1
  have hlen := congrArg List.length (cells_char ('/' :: '*' :: w))
  rw [List.length_map] at hlen
  rw [hlen] at hle
  simp only [List.length_cons, List.length_append] at hle
  omega

theorem maskFrom_initializer_spaces (hv : Complete v) (hy : ∀ c ∈ y, isGapSpace c)
    (hprev : prev.any isWord = false) :
    maskFrom b prev (v ++ (y ++ ';' :: rest)) =
      maskFrom b none v ++ y ++ ';' :: maskFrom false (some ';') rest := by
  rw [← List.append_assoc, maskFrom_complete (hv.append hy) b hprev, hv.maskFrom_append hy]

theorem scan_initializer_spaces (hv : Complete v) (hy : ∀ c ∈ y, isGapSpace c)
    (hprev : prev.any isWord = false)
    (hscan : scan s.expects (maskFrom b prev (v ++ ';' :: rest)) = .lexeme .initializer v.length) :
    scan s.expects (maskFrom b none v ++ y ++ ';' :: maskFrom false (some ';') rest') =
      .lexeme .initializer (maskFrom b none v ++ y).length := by
  obtain ⟨place, colon, type, eq, rfl⟩ :=
    State.constEquals_of_expects (scan_lexeme_kind hscan).1
  change scan [.initializer] _ = _ at hscan
  change scan [.initializer] _ = _
  rw [scan_initializer_eq_lexeme_iff] at hscan ⊢
  obtain ⟨hblock, hspace, hlength⟩ := hscan
  have hstar : (y ++ ';' :: rest').head? ≠ some '*' := by
    cases y with
    | nil => nofun
    | cons c y =>
      rw [List.cons_append, List.head?_cons, ne_eq, Option.some.injEq]
      exact ne_of_holds (hy c List.mem_cons_self) (by decide)
  have halike {cs : List Char} (k : Gap) : k.length (maskFrom b prev cs) = k.length cs :=
    (Gap.length_alike (alike_maskFrom b prev cs) k).symm
  obtain ⟨⟨c, w, htext, hc, hblank, hw⟩, -⟩ := initializerLength_spec hlength
  have hmask : maskFrom b prev (v ++ ';' :: rest) =
      maskFrom b none v ++ ';' :: maskFrom false (some ';') rest :=
    maskFrom_complete hv b hprev rest
  rw [hmask, ← length_maskFrom b none v, List.take_left] at htext
  have hne : v ≠ [] := by
    rintro rfl
    rw [maskFrom_nil] at htext
    cases htext
  rw [← maskFrom_initializer_spaces hv hy hprev]
  refine ⟨?_, ?_, ?_⟩
  · rw [halike] at hblock ⊢
    exact blockComment_of_complete hv hne hblock hstar
  · have hsolid : isGapSpace c = false := by
      by_contra hspace
      rw [isBlank_of_isGapSpace (by simpa using hspace)] at hblank
      cases hblank
    rw [maskFrom_initializer_spaces hv hy hprev, htext, Gap.length]
    · simp [hsolid]
  · rw [maskFrom_initializer_spaces hv hy hprev, htext, List.cons_append]
    refine initializerLength_append hc hblank (fun hmem => ?_) (Or.inr ⟨_, rfl⟩)
    rcases List.mem_append.1 hmem with hmem | hmem
    · exact hw hmem
    · exact absurd (hy _ hmem) (by decide)

theorem ends_initializer (hv : Complete v) (hy : ∀ c ∈ y, isGapSpace c)
    (hprev : prev.any isWord = false)
    (hscan : scan s.expects (maskFrom b prev (v ++ ';' :: rest)) = .lexeme .initializer v.length)
    (hfeed : s.feed (tokenAt .initializer p (maskFrom b none v)) = some s₁)
    (hends : Ends s₁ (';' :: maskFrom false (some ';') rest') r) :
    Ends s (maskFrom b prev (v ++ (y ++ ';' :: rest'))) r := by
  have htoken : (tokenAt .initializer p (maskFrom b none v)).relabel bare =
      (tokenAt .initializer p (maskFrom b none v ++ y)).relabel bare := by
    have hstrip : strip (maskFrom b none v ++ y) = strip (maskFrom b none v) :=
      strip_append_blanks fun c hc => isBlank_of_isGapSpace (hy c hc)
    simp [tokenAt, Token.relabel, bare, hstrip]
  obtain ⟨s₂, hfeed₂, hs₂⟩ := (State.Same.refl s).feed htoken hfeed
  rw [maskFrom_initializer_spaces hv hy hprev]
  exact .lexeme (scan_initializer_spaces hv hy hprev hscan) hfeed₂ (hends.same hs₂)

end

section

variable {x g post cs : List Char} {s s' s₁ r : State} {p p₁ : Position} {us ts : List Token}
  {b : Bool} {prev : Option Char} {u v text : List Char}

theorem Approach.initializer
    (h : Approach x g post us b prev (v ++ u) s p
      (tokenAt .initializer p (text.take v.length) :: ts))
    (htext : text = maskFrom b prev (v ++ (u ++ (x ++ post))))
    (hscan : scan s.expects text = .lexeme .initializer v.length) :
    prev.any isWord = false ∧ Complete v := by
  have hbeside := h.beside
  rw [List.append_assoc, ← htext] at hbeside
  have hlen : (text.take v.length).length = v.length :=
    List.length_take_of_le (Terminal.lexemeLength_bound (scan_lexeme_kind hscan).2).2
  have hcloses := h.closes
  rw [List.cons_append] at hcloses
  have hcomplete := hcloses.head
  rw [hlen, List.append_assoc, List.take_left] at hcomplete
  exact ⟨hbeside.prev_of_initializer hscan, hcomplete⟩

theorem Inserts.initializer (h : Inserts x g post s₁ p₁ cs us r (';' :: u))
    (htext : text = maskFrom b prev (v ++ (';' :: u ++ (x ++ post))))
    (hscan : scan s.expects text = .lexeme .initializer v.length)
    (hfeed : s.feed (tokenAt .initializer p (text.take v.length)) = some s')
    (hrest : Reads s' (Position.past p (text.take v.length)) (text.drop v.length) ts s₁ p₁ cs)
    (happroach : Approach x g post us b prev (v ++ ';' :: u) s p
      (tokenAt .initializer p (text.take v.length) :: ts)) :
    Ends s (maskFrom b prev (v ++ (';' :: u ++ (x ++ (g ++ post))))) r := by
  have hbeside := Beside.lexeme hscan hfeed prev
  obtain ⟨hprev, hv⟩ := happroach.initializer htext hscan
  have hmask : text = maskFrom b none v ++
      maskFrom b (lastOf prev (maskFrom b none v)) (';' :: (u ++ (x ++ post))) := by
    rw [htext, maskFrom_semicolon]
    exact maskFrom_complete hv b hprev _
  obtain ⟨htake, hdrop⟩ := take_drop_of_append hmask
  rw [length_maskFrom] at htake hdrop
  rw [htake] at hfeed hrest hbeside happroach
  rw [hdrop] at hrest hbeside
  rw [past_maskFrom] at hrest hbeside
  have hcells : cellsFrom 0 prev (v ++ (';' :: u ++ (x ++ post))) =
      cells v ++ cellsFrom 0 (lastOf prev (maskFrom b none v)) (';' :: u ++ (x ++ post)) := by
    have hprev : prev.any isWord = (none : Option Char).any isWord := hprev
    rw [cellsFrom_congr hprev, List.cons_append, hv.ends, cellsFrom_semicolon]
  have hends := h hrest
    (Approach.pass [tokenAt .initializer p (maskFrom b none v)] happroach hcells ?_ ?_)
  · rw [List.cons_append, maskFrom_semicolon] at hends
    rw [htext] at hscan
    exact ends_initializer (y := []) hv nofun hprev hscan hfeed hends
  · rw [← htext, hmask, ← past_maskFrom p b none v]
    rw [hmask, ← length_maskFrom b none v] at hscan
    exact (Reads.cons_iff hscan (Nat.le_refl _) hfeed).2 .done
  · rwa [State.feed_tokens hfeed, List.getLast?_concat]

theorem Joint.ends_initializer (hjoint : Joint [] g (';' :: post) s₁ p₁ cs us r)
    (htext : text = maskFrom b prev (v ++ ';' :: post))
    (hscan : scan s.expects text = .lexeme .initializer v.length)
    (hfeed : s.feed (tokenAt .initializer p (text.take v.length)) = some s')
    (hrest : Reads s' (Position.past p (text.take v.length)) (text.drop v.length) ts s₁ p₁ cs)
    (happroach : Approach [] g (';' :: post) us b prev v s p
      (tokenAt .initializer p (text.take v.length) :: ts)) :
    Ends s (maskFrom b prev (v ++ (g ++ ';' :: post))) r := by
  obtain ⟨hprev, hv⟩ :=
    Approach.initializer (u := []) (by rwa [List.append_nil]) htext hscan
  have hmask : text = maskFrom b none v ++ ';' :: maskFrom false (some ';') post := by
    rw [htext, maskFrom_complete hv b hprev]
  obtain ⟨htake, hdrop⟩ := take_drop_of_append hmask
  rw [length_maskFrom] at htake hdrop
  rw [htake] at hfeed
  rw [hdrop] at hrest
  obtain ⟨q, hreads⟩ := hjoint.reads
  obtain ⟨rfl, rfl, rfl, rfl⟩ := hrest.eq_of_length (by simp [hjoint.length, length_maskFrom])
  have hlast : s₁.tokens.getLast? = some (tokenAt .initializer p (maskFrom b none v)) := by
    rw [State.feed_tokens hfeed, List.getLast?_concat]
  rw [htext] at hscan
  exact Grammar.ends_initializer hv (hjoint.value ⟨_, hlast, rfl⟩) hprev hscan hfeed
    (hreads.ends (.refl s₁))

theorem Inserts.body {body : List Char} (h : Inserts x g post s₁ p₁ cs us r u)
    (hg : Filler g) (hlen : cs.length = (x ++ post).length)
    (hbody : Enclosed body (u ++ (x ++ post)))
    (hscan : scan s.expects (maskFrom true prev ('{' :: (body ++ '}' :: (u ++ (x ++ post))))) =
      .lexeme .lbrace 1)
    (hfeed : s.feed (tokenAt .lbrace p ['{']) = some s')
    (hrest : Reads s' (p.after '{')
      (body.map blankOut ++ '}' :: maskFrom false (some '}') (u ++ (x ++ post))) ts s₁ p₁ cs)
    (happroach : Approach x g post us true prev ('{' :: (body ++ '}' :: u)) s p
      (tokenAt .lbrace p ['{'] :: ts)) :
    Ends s (maskFrom true prev ('{' :: (body ++ '}' :: (u ++ (x ++ (g ++ post)))))) r := by
  have hmem := (scan_lexeme_kind hscan).1
  have hinit := State.initializer_not_expected_after hfeed
    (show Terminal.lbrace ≠ .equals by decide)
  have hle : cs.length ≤ (maskFrom false (some '}') (u ++ (x ++ post))).length := by
    simp only [hlen, length_maskFrom, List.length_append]
    omega
  rw [Reads.blanks_iff _ (Nat.le_succ_of_le hle)] at hrest
  obtain ⟨hclose, s₂, ts₂, rfl, hfeed₂, hrest⟩ := hrest.rbrace hinit hle
  have hnear : Near (u ++ (x ++ post)) (u ++ (x ++ (g ++ post))) := by
    by_cases hend : u ++ x = []
    · obtain ⟨rfl, rfl⟩ := List.append_eq_nil_iff.1 hend
      exact hg.near post
    · exact Or.inl (head?_of_ne_nil hend (g ++ post) post)
  have hscan₂ (rest : List Char) : scan s'.expects (['}'] ++ rest) = .lexeme .rbrace 1 :=
    scan_mark .rbrace hclose hinit
  refine (hbody.near hnear).ends hmem hfeed (Ends.lexeme (hscan₂ _) hfeed₂ (h hrest ?_))
  have hsplit : '{' :: (body ++ '}' :: u) = '{' :: (body ++ ['}']) ++ u := by simp
  have hplace : Position.past p ('{' :: (body ++ ['}'])) =
      (Position.past (p.after '{') body).after '}' := by
    rw [past_cons, past_append]
    rfl
  have htext : '{' :: (body ++ ['}']) ++ (u ++ (x ++ post)) =
      '{' :: (body ++ '}' :: (u ++ (x ++ post))) := by simp
  rw [hsplit] at happroach
  rw [← hplace]
  have ⟨bs, _, _, hcells⟩ := hbody
  have hcells' : cellsFrom 0 prev ('{' :: (body ++ ['}']) ++ (u ++ (x ++ post))) =
      ⟨'{', false⟩ :: (bs ++ [⟨'}', false⟩]) ++ cellsFrom 0 (some '}') (u ++ (x ++ post)) := by
    rw [htext, cellsFrom_brace, hcells]
    simp
  refine Approach.pass [_, _] happroach hcells' ?_ ?_
  · rw [htext, hbody.maskFrom]
    rw [hbody.maskFrom] at hscan
    have hclosed := Reads.next (hscan₂ (maskFrom false (some '}') (u ++ (x ++ post)))) hfeed₂
    rw [hplace]
    have hopen := Reads.next (w := ['{']) hscan hfeed
    exact hopen.trans ((Reads.blanks_iff _ (Nat.le_succ _)).2 hclosed)
  · have hclosed := hscan₂ (maskFrom false (some '}') (u ++ (x ++ post)))
    have hbeside := Beside.lexeme hclosed hfeed₂ none
    rw [State.feed_tokens hfeed₂, List.getLast?_concat, hplace]
    exact hbeside

theorem Joint.ends_body_start {body rest : List Char}
    (h : Joint x g (body ++ '}' :: rest) s₁ p₁
      ((x ++ body).map blankOut ++ '}' :: maskFrom false (some '}') rest) us r)
    (hbody : Enclosed (x ++ body) rest) (hmem : .lbrace ∈ s.expects)
    (hfeed : s.feed (tokenAt .lbrace p ['{']) = some s₁) :
    Ends s (maskFrom true prev ('{' :: (x ++ (g ++ (body ++ '}' :: rest))))) r := by
  obtain ⟨q, hreads⟩ := h.reads
  rw [Reads.blanks_iff _ (Nat.zero_le _)] at hreads
  have hends : Ends s (maskFrom true prev ('{' :: (x ++ (g ++ body) ++ '}' :: rest))) r :=
    (hbody.insert_start h.blank h.filler).ends hmem hfeed (hreads.ends (.refl s₁))
  simpa using hends

theorem Joint.ends_body_end {body rest : List Char}
    (h : Joint [] g ('}' :: rest) s₁ p₁ ('}' :: maskFrom false (some '}') rest) us r)
    (hbody : Enclosed body rest) (hmem : .lbrace ∈ s.expects)
    (hfeed : s.feed (tokenAt .lbrace p ['{']) = some s₁)
    (happroach : Approach [] g ('}' :: rest) us true prev ('{' :: body) s p ts) :
    Ends s (maskFrom true prev ('{' :: body ++ (g ++ '}' :: rest))) r := by
  obtain ⟨q, hreads⟩ := h.reads
  have hinsert : Enclosed (body ++ g) rest := by
    refine hbody.insert_end h.filler fun hg as bs hcells => ?_
    refine happroach.slash hg (⟨'{', false⟩ :: as) bs ?_
    rw [List.nil_append, List.cons_append, cellsFrom_brace, hcells]
    rfl
  have hends : Ends s (maskFrom true prev ('{' :: (body ++ g ++ '}' :: rest))) r :=
    hinsert.ends hmem hfeed (hreads.ends (.refl s₁))
  simpa using hends

/-- The place is in a body: at its start or at its end, since the reader passes it as a whole. -/
theorem Joint.ends_body {a rest : List Char} (h : Joint x g post s₁ p₁ cs us r)
    (ha : x ++ post = a ++ '}' :: rest) (hbody : Enclosed (u ++ a) rest)
    (hmem : .lbrace ∈ s.expects) (hfeed : s.feed (tokenAt .lbrace p ['{']) = some s')
    (hrest : Reads s' (p.after '{')
      ((u ++ a).map blankOut ++ '}' :: maskFrom false (some '}') rest) ts s₁ p₁ cs)
    (happroach : Approach x g post us true prev ('{' :: u) s p (tokenAt .lbrace p ['{'] :: ts)) :
    Ends s (maskFrom true prev ('{' :: (u ++ (x ++ (g ++ post))))) r := by
  have hlen := h.length
  rw [ha, List.length_append, List.length_cons] at hlen
  cases u with
  | nil =>
    obtain ⟨rfl, rfl, rfl, rfl⟩ := hrest.eq_of_length (by simp [hlen, length_maskFrom])
    obtain ⟨body, rfl, rfl⟩ : ∃ body, a = x ++ body ∧ post = body ++ '}' :: rest := by
      rcases List.append_eq_append_iff.1 ha with ⟨v, hv, hpost⟩ | ⟨v, rfl, hpost⟩
      · exact ⟨v, hv, hpost⟩
      · cases v with
        | nil => exact ⟨[], by simp, by simpa using hpost.symm⟩
        | cons c v =>
          obtain rfl : '}' = c := (List.cons.inj hpost).1
          exact absurd (h.blank '}' (by simp)) (by decide)
    exact h.ends_body_start hbody hmem hfeed
  | cons c u =>
    have hle : cs.length ≤ (maskFrom false (some '}') rest).length + 1 := by
      cases hrest with
      | done =>
        simp only [List.length_append, List.length_map, List.length_cons, length_maskFrom] at hlen
        omega
      | gap hscan hrest =>
        rw [List.cons_append, List.map_cons] at hscan
        have hblanks := scan_blanks s'.expects c (u ++ a) (maskFrom false (some '}') rest)
        rw [List.map_cons, hscan, Piece.gap.injEq] at hblanks
        subst hblanks
        have := hrest.length_le
        simp at this
        omega
      | lexeme hscan _ _ =>
        rw [List.cons_append, List.map_cons] at hscan
        have hblanks := scan_blanks s'.expects c (u ++ a) (maskFrom false (some '}') rest)
        rw [List.map_cons, hscan] at hblanks
        cases hblanks
    rw [Reads.blanks_iff _ hle] at hrest
    rw [length_maskFrom] at hle
    obtain rfl : a = [] := List.eq_nil_of_length_eq_zero (by omega)
    obtain ⟨rfl, rfl, rfl, rfl⟩ := hrest.eq_of_length (by simp [hlen, length_maskFrom])
    have hx : x = [] := by
      cases x with
      | nil => rfl
      | cons d x =>
        obtain rfl : d = '}' := (List.cons.inj ha).1
        exact absurd (h.blank '}' (by simp)) (by decide)
    subst hx
    obtain rfl : post = '}' :: rest := ha
    rw [List.append_nil] at hbody
    exact h.ends_body_end hbody hmem hfeed happroach

theorem Reads.complete {p' : Position} {cs cs' : List Char} (h : Reads s p cs ts s' p' cs')
    (hcloses : Closes p cs ts) : ∀ t ∈ ts, t.kind = .initializer → Complete t.text.toList := by
  induction h with
  | done => nofun
  | gap _ _ ih => exact ih (hcloses.drop _)
  | @lexeme _ _ _ p _ cs _ _ k n hscan _ _ ih =>
    intro t ht hkind
    rcases List.mem_cons.1 ht with rfl | ht
    · obtain rfl : k = .initializer := hkind
      have hw := hcloses.head
      rw [List.length_take_of_le (scan_lexeme_bound hscan).2] at hw
      rwa [tokenAt_text]
    · exact ih (hcloses.tail.drop n) t ht hkind

theorem Inserts.block (ih : ∀ v : List Char, v.length < u.length → Inserts x g post s₁ p₁ cs us r v)
    (hjoint : Joint x g post s₁ p₁ cs us r)
    (htext : '{' :: text = maskFrom true prev ('{' :: u ++ (x ++ post)))
    (hscan : scan s.expects ('{' :: text) = .lexeme .lbrace 1)
    (hfeed : s.feed (tokenAt .lbrace p ['{']) = some s')
    (hrest : Reads s' (p.after '{') text ts s₁ p₁ cs)
    (happroach : Approach x g post us true prev ('{' :: u) s p (tokenAt .lbrace p ['{'] :: ts)) :
    Ends s (maskFrom true prev ('{' :: u ++ (x ++ (g ++ post)))) r := by
  obtain ⟨q, hreads⟩ := hjoint.reads
  have hmem := (scan_lexeme_kind hscan).1
  have hmasked := htext
  rw [List.cons_append, maskFrom, cellsFrom_brace, maskCells_brace] at hmasked
  cases hclosing : closing 0 (cellsFrom 0 (some '{') (u ++ (x ++ post))) with
  | none =>
    -- The reader would not get to the end of the text.
    exfalso
    rw [hclosing, cellsFrom_char] at hmasked
    have htail : text = u ++ (x ++ post) := (List.cons.inj hmasked).2
    subst htail
    have hwhole := hrest.trans hreads
    have hcloses : Closes (p.after '{') (u ++ (x ++ post)) (ts ++ us) :=
      happroach.closes.tail.append (v := ['{'])
    obtain ⟨d, hnesting⟩ := happroach.nesting
    have hbeside := Beside.lexeme (n := 1) hscan hfeed prev
    obtain ⟨n, hn⟩ := hwhole.exists_closing (k := 0) (d := d) rfl hbeside
      (hwhole.complete hcloses) (by rw [Nat.zero_add]; exact hnesting)
    cases hclosing.symm.trans hn
  | some m =>
    obtain ⟨bs, ds, hcells, -, hdepth⟩ := exists_of_closing hclosing
    obtain ⟨rest, hsplit, rfl⟩ := cellsFrom_split hcells
    generalize hchars : bs.map (·.char) = body at hsplit
    have hbody : Enclosed body rest :=
      ⟨bs, by simp [← hchars], hdepth, by rw [← hsplit]; exact hcells⟩
    rw [List.cons_append, hsplit, hbody.maskFrom] at htext
    obtain rfl := (List.cons.inj htext).2
    rw [List.cons_append]
    have hsplit' := hsplit
    rcases List.append_eq_append_iff.1 hsplit with ⟨a, rfl, ha⟩ | ⟨a, rfl, ha⟩
    · exact hjoint.ends_body ha hbody hmem hfeed hrest happroach
    · cases a with
      | nil =>
        rw [List.append_nil] at hsplit' happroach ⊢
        refine hjoint.ends_body (a := []) ha.symm (by rwa [List.append_nil]) hmem hfeed ?_ happroach
        rwa [List.append_nil]
      | cons c v =>
        have hrest' : rest = v ++ (x ++ post) := (List.cons.inj ha).2
        obtain rfl : '}' = c := (List.cons.inj ha).1
        subst hrest'
        rw [htext] at hscan
        rw [List.append_assoc, List.cons_append]
        refine Inserts.body (ih v ?_) hjoint.filler hjoint.length hbody ?_ hfeed hrest happroach
        · simp
          omega
        · rw [hbody.maskFrom]
          exact hscan

theorem Reads.le_of_place {text : List Char} {n : Nat} (h : Reads s p (text.drop n) ts s' p₁ cs)
    (hn : n ≤ text.length) (htext : text = maskFrom b prev (u ++ (x ++ post)))
    (hlen : cs.length = (x ++ post).length) : ∃ v w, u = v ++ w ∧ n = v.length := by
  have hle := h.length_le
  have hlength := congrArg List.length htext
  rw [length_maskFrom, List.length_append] at hlength
  rw [List.length_drop] at hle
  have hn : n ≤ u.length := by omega
  exact ⟨u.take n, u.drop n, (List.take_append_drop n u).symm, (List.length_take_of_le hn).symm⟩

theorem Joint.not_ends_initializer (hjoint : Joint x g post s₁ p₁ cs us r) {w : List Char}
    {q : Position} (hmem : .initializer ∈ s.expects)
    (hfeed : s.feed (tokenAt .initializer p w) = some s') (h : Reads s' q [] ts s₁ p₁ cs) :
    cs ≠ [] := by
  rintro rfl
  obtain ⟨_, hreads⟩ := hjoint.reads
  obtain ⟨place, colon, type, eq, rfl⟩ := State.constEquals_of_expects hmem
  cases hfeed
  obtain ⟨-, rfl, -, -⟩ := h.eq_of_length rfl
  obtain ⟨-, rfl, -, -⟩ := hreads.eq_of_length rfl
  cases hjoint.finish

/-- What stands behind an initializer, if the reader goes on to the place. -/
theorem Inserts.initializer_cases
    (ih : ∀ w : List Char, w.length < (v ++ u).length → Inserts x g post s₁ p₁ cs us r w)
    (hjoint : Joint x g post s₁ p₁ cs us r)
    (htext : text = maskFrom b prev (v ++ (u ++ (x ++ post))))
    (hscan : scan s.expects text = .lexeme .initializer v.length)
    (hfeed : s.feed (tokenAt .initializer p (text.take v.length)) = some s')
    (hrest : Reads s' (Position.past p (text.take v.length)) (text.drop v.length) ts s₁ p₁ cs)
    (happroach : Approach x g post us b prev (v ++ u) s p
      (tokenAt .initializer p (text.take v.length) :: ts)) :
    Ends s (maskFrom b prev (v ++ (u ++ (x ++ (g ++ post))))) r := by
  have hlength := (scan_lexeme_kind hscan).2
  have hpos := (Terminal.lexemeLength_bound hlength).1
  rw [htext] at hlength
  have hnext := drop_of_initializerLength_mask hlength
  rw [List.drop_left] at hnext
  cases u with
  | cons c u =>
    obtain rfl : c = ';' := by simpa using hnext
    refine Inserts.initializer (ih _ ?_) htext hscan hfeed hrest happroach
    rw [List.length_append]
    omega
  | nil =>
    rcases hnext with hnil | hsemi
    · obtain ⟨rfl, rfl⟩ := List.append_eq_nil_iff.1 (by simpa using hnil)
      have hend : text.drop v.length = [] := by
        refine List.drop_of_length_le ?_
        rw [htext, length_maskFrom]
        simp
      rw [hend] at hrest
      exact absurd (List.eq_nil_of_length_eq_zero hjoint.length)
        (hjoint.not_ends_initializer (scan_lexeme_kind hscan).1 hfeed hrest)
    · cases x with
      | cons d x =>
        obtain rfl : d = ';' := by simpa using hsemi
        exact absurd (hjoint.blank ';' (by simp)) (by decide)
      | nil =>
        obtain ⟨post, rfl⟩ := List.head?_eq_some_iff.1 hsemi
        rw [List.append_nil] at happroach
        exact hjoint.ends_initializer htext hscan hfeed hrest happroach

/-- With a filler at the place, a text is read to the end as it is without. -/
theorem Reads.ends_insert (hjoint : Joint x g post s₁ p₁ cs us r)
    (h : Reads s p (maskFrom b prev (u ++ (x ++ post))) ts s₁ p₁ cs)
    (happroach : Approach x g post us b prev u s p ts) :
    Ends s (maskFrom b prev (u ++ (x ++ (g ++ post)))) r := by
  suffices hall : Inserts x g post s₁ p₁ cs us r u from hall h happroach
  clear h happroach
  -- By the length of the text before the place, since a body is passed as a whole.
  generalize hk : u.length = k
  induction k using Nat.strongRecOn generalizing u with
  | ind k ih =>
    subst hk
    have ih (v : List Char) (hv : v.length < u.length) : Inserts x g post s₁ p₁ cs us r v :=
      ih _ hv rfl
    intro b prev s p ts h happroach
    generalize htext : maskFrom b prev (u ++ (x ++ post)) = text at h
    cases h with
    | done =>
      obtain rfl : u = [] := by
        have hlen := hjoint.length
        rw [← htext, length_maskFrom, List.length_append] at hlen
        exact List.eq_nil_of_length_eq_zero (by omega)
      subst htext
      have hbeside := happroach.beside
      exact hjoint.ends hbeside
    | @gap _ _ _ _ _ _ _ n hscan hrest =>
      have hbound := scan_gap_bound hscan
      obtain ⟨v, w, rfl, rfl⟩ := hrest.le_of_place hbound.2 htext.symm hjoint.length
      rw [List.append_assoc] at htext ⊢
      subst htext
      refine Inserts.gap (ih w ?_) hjoint hscan hrest happroach
      rw [List.length_append]
      omega
    | @lexeme _ _ _ _ _ _ _ us k n hscan hfeed hrest =>
      have hbound := scan_lexeme_bound hscan
      obtain ⟨v, w, rfl, rfl⟩ := hrest.le_of_place hbound.2 htext.symm hjoint.length
      rw [List.append_assoc] at htext ⊢
      by_cases hkind : k = .initializer
      · subst hkind
        exact Inserts.initializer_cases ih hjoint htext.symm hscan hfeed hrest happroach
      · by_cases hblock : k = .lbrace ∧ b = true
        · obtain ⟨rfl, rfl⟩ := hblock
          obtain ⟨hlen, rest, rfl⟩ := eq_cons_of_take (c := '{')
            (Terminal.take_of_spelling (t := .lbrace) rfl (scan_lexeme_kind hscan).2) hbound.2
          obtain ⟨c, rfl⟩ := List.length_eq_one_iff.1 hlen
          obtain rfl : c = '{' := by
            have hhead := (agree_maskFrom true prev ([c] ++ (w ++ (x ++ post)))).head?_eq
            rw [htext] at hhead
            exact Option.some.inj hhead
          change Ends s (maskFrom true prev ('{' :: w ++ (x ++ (g ++ post)))) r
          refine Inserts.block (fun v hv => ih v ?_) hjoint htext.symm hscan hfeed hrest happroach
          rw [List.length_append]
          omega
        · refine Inserts.lexeme (ih w ?_) hjoint hkind ?_ htext.symm hscan hfeed hrest happroach
          · rw [List.length_append]
            omega
          · exact fun hk => by simpa using fun hb => hblock ⟨hk, hb⟩

end

end NativeBinding.Grammar
