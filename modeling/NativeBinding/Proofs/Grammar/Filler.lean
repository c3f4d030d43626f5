import NativeBinding.Proofs.Body.Seam
import NativeBinding.Proofs.Grammar.Bare
import NativeBinding.Proofs.Grammar.Course

/-!
White space and comments that stand by themselves. Whatever stands around a filler, the mask passes
over it and the reader reads on behind it in the same state, unless it is a line comment where an
initializer is expected.
-/

namespace NativeBinding.Grammar

open Text Body

/-- White space, a block comment, or a line comment with the end of its line. A line comment starts
with two slashes, and three slashes start none. -/
inductive Filler : List Char → Prop
  | space {g : List Char} (hne : g ≠ []) (h : ∀ c ∈ g, isGapSpace c) : Filler g
  | block {w : List Char} (h : ¬ ['*', '/'] <:+: w) : Filler ('/' :: '*' :: (w ++ ['*', '/']))
  | line {w : List Char} (hslash : w.head? ≠ some '/') (hend : '\n' ∉ w) :
      Filler ('/' :: '/' :: (w ++ ['\n']))

theorem commentRest_close {w : List Char} (h : ¬ ['*', '/'] <:+: w) (rest : List Char) :
    commentRest (w ++ '*' :: '/' :: rest) = some (w.length + 2) := by
  induction w with
  | nil => rfl
  | cons c w ih =>
    rw [List.cons_append, commentRest.eq_def]
    split
    · next heq =>
      obtain ⟨rfl, htail⟩ := List.cons.inj heq
      cases w with
      | nil => exact absurd (List.cons.inj htail).1 (by decide)
      | cons d w =>
        obtain rfl : d = '/' := (List.cons.inj htail).1
        exact absurd ⟨[], w, rfl⟩ h
    · next heq =>
      obtain ⟨rfl, rfl⟩ := List.cons.inj heq
      rw [ih fun hclose => h (hclose.trans (List.suffix_cons _ _).isInfix)]
      rfl
    · next heq => cases heq

theorem blockComment_length {w : List Char} (h : ¬ ['*', '/'] <:+: w) (rest : List Char) :
    Gap.blockComment.length ('/' :: '*' :: (w ++ ['*', '/']) ++ rest) =
      some ('/' :: '*' :: (w ++ ['*', '/'])).length := by
  rw [List.cons_append, List.cons_append, List.append_assoc, Gap.length]
  simp only [List.cons_append, List.nil_append, commentRest_close h]
  simp

theorem lineComment_length {w : List Char} (h : '\n' ∉ w) (rest : List Char) :
    Gap.lineComment.length ('/' :: '/' :: w ++ '\n' :: rest) = some ('/' :: '/' :: w).length := by
  refine lineComment_iff.2 ⟨w, rfl, fun c hc => ?_, ?_⟩
  · rw [bne_iff_ne]
    rintro rfl
    exact h hc
  · rintro _ ⟨⟩
    rfl

/-- Cells of a text that neither reach beyond it nor open or end anything. -/
structure Neutral (g : List Char) (as : List Cell) : Prop where
  chars : as.map (·.char) = g
  cells (prev : Option Char) (rest : List Char) :
    cellsFrom 0 prev (g ++ rest) = as ++ cellsFrom 0 (lastOf prev g) rest
  depth (d : Nat) : depthAfter d as = some d
  mask (b : Bool) (prev : Option Char) (rest : List Cell) :
    maskCells (.scan b) prev (as ++ rest) = g ++ maskCells (.scan b) (lastOf prev g) rest

theorem run_chars (inert : Bool) (w : List Char) : (run inert w).map (·.char) = w := by
  induction w with
  | nil => rfl
  | cons c w ih => rw [run_cons, List.map_cons, ih]

theorem neutral_spaces {g : List Char} (h : ∀ c ∈ g, isGapSpace c) : Neutral g (run false g) where
  chars := run_chars _ _
  cells := cellsFrom_plain fun c hc => isPlain_of_isGapSpace (h c hc)
  depth := depthAfter_spaces h
  mask := maskCells_quiet fun c hc => isQuiet_of_isGapSpace (h c hc)

theorem neutral_line {w : List Char} (h : '\n' ∉ w) :
    Neutral ('/' :: '/' :: (w ++ ['\n'])) (run true ('/' :: '/' :: w) ++ [⟨'\n', false⟩]) := by
  refine ⟨?_, fun prev rest => ?_, fun d => ?_, fun b prev rest => ?_⟩
  · rw [List.map_append, run_chars]
    rfl
  · have hcells := Gap.cells (lineComment_length h rest) prev
    have hbreak (prev : Option Char) : cellsFrom 0 prev ('\n' :: rest) =
        ⟨'\n', false⟩ :: cellsFrom 0 (some '\n') rest :=
      cellsFrom_plain_cons (by decide) prev rest
    rw [List.take_left, List.drop_left, hbreak] at hcells
    simpa [lastOf_append, Kind.isRegion] using hcells
  · rw [Body.depthAfter_append (depthAfter_inert d _)]
    rfl
  · rw [List.append_assoc, maskCells_inert, List.singleton_append,
      maskCells_quiet_cons b _ (by decide)]
    simp [lastOf_append]

section

variable {g rest : List Char}

theorem Neutral.maskFrom {as : List Cell} (h : Neutral g as) (b : Bool) (prev : Option Char)
    (rest : List Char) : maskFrom b prev (g ++ rest) = g ++ maskFrom b (lastOf prev g) rest := by
  rw [Body.maskFrom, h.cells, h.mask]
  rfl

theorem Filler.ne_nil (h : Filler g) : g ≠ [] := by
  cases h with
  | space hne => exact hne
  | block | line => nofun

theorem Filler.exists_neutral (h : Filler g) : ∃ as, Neutral g as := by
  cases h with
  | space hne hg => exact ⟨_, neutral_spaces hg⟩
  | @block w hw =>
    refine ⟨run true _, run_chars _ _, fun prev rest => ?_, fun d => depthAfter_inert d _,
      fun b prev rest => maskCells_inert b prev _ rest⟩
    have hcells := Gap.cells (blockComment_length hw rest) prev
    rwa [List.take_left, List.drop_left] at hcells
  | line _ hend => exact ⟨_, neutral_line hend⟩

theorem Filler.maskFrom (h : Filler g) (b : Bool) (prev : Option Char) (rest : List Char) :
    maskFrom b prev (g ++ rest) = g ++ maskFrom b (lastOf prev g) rest := by
  obtain ⟨as, hneutral⟩ := h.exists_neutral
  exact hneutral.maskFrom b prev rest

theorem Filler.head (h : Filler g) : ∀ c ∈ g.head?, c = '/' ∨ isGapSpace c := by
  cases h with
  | space hne hg => exact fun c hc => Or.inr (hg c (List.mem_of_mem_head? hc))
  | block | line =>
    rintro _ ⟨⟩
    exact Or.inl rfl

theorem Filler.last (h : Filler g) (prev : Option Char) : (lastOf prev g).any isWord = false := by
  rw [lastOf_eq_getLast? h.ne_nil]
  cases h with
  | space hne hg =>
    rw [List.getLast?_eq_some_getLast hne]
    exact isGapSpace_not_isWord (hg _ (List.getLast_mem hne))
  | @block w =>
    rw [show '/' :: '*' :: (w ++ ['*', '/']) = ('/' :: '*' :: w ++ ['*']) ++ ['/'] by simp,
      List.getLast?_concat]
    decide
  | @line w =>
    rw [show '/' :: '/' :: (w ++ ['\n']) = ('/' :: '/' :: w) ++ ['\n'] by simp,
      List.getLast?_concat]
    decide

theorem Filler.near (h : Filler g) (rest : List Char) : Near rest (g ++ rest) := by
  cases g with
  | nil => exact Or.inl rfl
  | cons c g => exact Or.inr ⟨c, rfl, h.head c rfl⟩

theorem Filler.tail_head? (h : Filler g) (hrest : rest.head? ≠ some '\'') :
    (g.tail ++ rest).head? ≠ some '\'' := by
  cases h with
  | space hne hg =>
    obtain ⟨c, g, rfl⟩ := List.exists_cons_of_ne_nil hne
    cases g with
    | nil => exact hrest
    | cons d g =>
      rw [List.tail_cons, List.cons_append, List.head?_cons, ne_eq, Option.some.injEq]
      exact ne_of_holds (hg d (by simp)) (by decide)
  | block | line => nofun

end

section

variable {s r : State} {cs g : List Char} {expected : List Terminal}

theorem fit_slash {t : Terminal} (hdoc : t ≠ .docComment) (hinit : t ≠ .initializer) :
    fit expected ('/' :: cs) (.terminal t) = none :=
  fit_eq_none (Option.eq_none_iff_forall_ne_some.2 fun _ hn => by
    rcases Kind.starts_slash hn with heq | heq | heq | heq <;> cases heq
    · exact hdoc rfl
    · exact hinit rfl)

theorem scan_blockComment {n : Nat} (h : Gap.blockComment.length ('/' :: '*' :: cs) = some n) :
    scan expected ('/' :: '*' :: cs) = .gap n := by
  have hdoc : fit expected ('/' :: '*' :: cs) (.terminal .docComment) = none := fit_eq_none rfl
  have hblock : fit expected ('/' :: '*' :: cs) (.gap .blockComment) =
      some (.gap .blockComment, n) := by
    rw [fit, h]
    rfl
  rw [scan_eq, priority]
  simp only [List.cons_append, List.findSome?_cons, hdoc, hblock, fit_slash, ne_eq, reduceCtorEq,
    not_false_eq_true]

theorem fit_docComment (hslash : cs.head? ≠ some '/') :
    fit expected ('/' :: '/' :: cs) (.terminal .docComment) = none :=
  fit_eq_none (docComment_eq_none_iff.2 hslash)

theorem scan_lineComment {n : Nat} (hinit : .initializer ∉ expected)
    (hdoc : fit expected ('/' :: '/' :: cs) (.terminal .docComment) = none)
    (h : Gap.lineComment.length ('/' :: '/' :: cs) = some n) :
    scan expected ('/' :: '/' :: cs) = .gap n := by
  have hother : fit expected ('/' :: '/' :: cs) (.terminal .initializer) = none := by
    simp [fit, hinit]
  have hblock : fit expected ('/' :: '/' :: cs) (.gap .blockComment) = none := rfl
  have hspace : fit expected ('/' :: '/' :: cs) (.gap .space) = none := by
    have hlength : Gap.space.length ('/' :: '/' :: cs) = none := by
      rw [Gap.length]
      · simp [show isGapSpace '/' = false by decide]
    rw [fit, hlength]
    rfl
  have hline : fit expected ('/' :: '/' :: cs) (.gap .lineComment) =
      some (.gap .lineComment, n) := by
    rw [fit, h]
    rfl
  rw [scan_eq, priority]
  simp only [List.cons_append, List.findSome?_cons, hdoc, hother, hblock, hspace, hline, fit_slash,
    ne_eq, reduceCtorEq, not_false_eq_true]

theorem Filler.ends (h : Filler g) (hline : ['/', '/'] <+: g → .initializer ∉ s.expects)
    (hends : Ends s cs r) : Ends s (g ++ cs) r := by
  cases h with
  | space hne hg => exact (Ends.spaces_iff hg).2 hends
  | @block w hw =>
    exact (Ends.gap_iff (scan_blockComment (blockComment_length hw cs))).2 hends
  | @line w hslash hend =>
    have hhead : (w ++ '\n' :: cs).head? ≠ some '/' := by
      cases w with
      | nil => nofun
      | cons c w => exact hslash
    have hscan := scan_lineComment (hline ⟨_, rfl⟩) (fit_docComment hhead)
      (lineComment_length hend cs)
    rw [show '/' :: '/' :: (w ++ ['\n']) ++ cs = '/' :: '/' :: w ++ (['\n'] ++ cs) by simp]
    exact (Ends.gap_iff hscan).2 ((Ends.spaces_iff (forall_mem_of_all (by decide))).2 hends)

end

theorem lastOf_spaces {prev : Option Char} {x : List Char} (hx : ∀ c ∈ x, isGapSpace c)
    (hprev : prev.any isWord = false) : (lastOf prev x).any isWord = false := by
  by_cases hne : x = []
  · rw [hne]
    exact hprev
  · rw [lastOf_eq_getLast? hne, List.getLast?_eq_some_getLast hne]
    exact isGapSpace_not_isWord (hx _ (List.getLast_mem hne))

section

variable {x g body rest rest' : List Char}

theorem Enclosed.insert_start (h : Enclosed (x ++ body) rest) (hx : ∀ c ∈ x, isGapSpace c)
    (hg : Filler g) : Enclosed (x ++ (g ++ body)) rest := by
  obtain ⟨bs, hlen, hdepth, hcells⟩ := h
  obtain ⟨as, hneutral⟩ := hg.exists_neutral
  have hspaces := neutral_spaces hx
  rw [List.append_assoc, hspaces.cells] at hcells
  obtain ⟨cs, rfl, hbody⟩ : ∃ cs, bs = run false x ++ cs ∧
      cellsFrom 0 (lastOf (some '{') x) (body ++ '}' :: rest) =
        cs ++ ⟨'}', false⟩ :: cellsFrom 0 (some '}') rest := by
    refine ⟨bs.drop x.length, ?_, ?_⟩
    · have htake := congrArg (List.take x.length) hcells
      rw [List.take_append_of_le_length (by simp), List.take_append_of_le_length (by simp [hlen]),
        List.take_of_length_le (by simp)] at htake
      rw [htake, List.take_append_drop]
    · have hdrop := congrArg (List.drop x.length) hcells
      rwa [List.drop_append_of_le_length (by simp), List.drop_append_of_le_length (by simp [hlen]),
        List.drop_of_length_le (by simp), List.nil_append] at hdrop
  have hword : (lastOf (lastOf (some '{') x) g).any isWord =
      (lastOf (some '{') x).any isWord := by
    rw [hg.last, lastOf_spaces hx (by decide)]
  have hchars := congrArg List.length hneutral.chars
  rw [List.length_map] at hchars
  refine ⟨run false x ++ (as ++ cs), ?_, ?_, ?_⟩
  · simp only [List.length_append, length_run] at hlen ⊢
    omega
  · rw [Body.depthAfter_append (hspaces.depth 0)] at hdepth ⊢
    rwa [Body.depthAfter_append (hneutral.depth 0)]
  · rw [List.append_assoc, List.append_assoc, hspaces.cells, hneutral.cells,
      cellsFrom_congr hword, hbody]
    simp

theorem depthAfter_slash (d : Nat) (as : List Cell) :
    depthAfter d (as ++ [⟨'/', false⟩]) = depthAfter d as := by
  induction as generalizing d with
  | nil => rfl
  | cons a as ih =>
    rw [List.cons_append, depthAfter, depthAfter]
    congr 1
    funext d
    exact ih d

theorem Neutral.enclosed {z : List Char} {d : Char} {as bs gs : List Cell} (hg : Neutral g gs)
    (hbland : ∀ c ∈ g.head?, isBland c) (htail : (g.tail ++ '}' :: rest).head? ≠ some '\'')
    (hd : d ≠ '\n') (hcells : cellsFrom 0 (some '{') (body ++ d :: z) = as ++ ⟨d, false⟩ :: bs)
    (hlen : as.length = body.length) (hdepth : depthAfter 0 as = some 0)
    (hslash : g.head? = some '/' → as.getLast? ≠ some ⟨'/', false⟩) (hne : g ≠ []) :
    Enclosed (body ++ g) rest := by
  obtain ⟨c, w, rfl⟩ := List.exists_cons_of_ne_nil hne
  have hbody := cellsFrom_before_seam hd hcells hlen (hbland c rfl) htail fun hc =>
    hslash (congrArg some hc)
  change cellsFrom 0 _ (body ++ (c :: w ++ '}' :: rest)) =
    as ++ cellsFrom 0 _ (c :: w ++ '}' :: rest) at hbody
  have hchars := congrArg List.length hg.chars
  rw [List.length_map] at hchars
  refine ⟨as ++ gs, ?_, ?_, ?_⟩
  · rw [List.length_append, List.length_append, hlen, hchars]
  · rw [Body.depthAfter_append hdepth, hg.depth]
  · rw [List.append_assoc, hbody, hg.cells, cellsFrom_rbrace, List.append_assoc]

/-- A block comment does not go with a slash before it. A line comment starts at the slash. -/
theorem Enclosed.insert_end (h : Enclosed body rest) (hg : Filler g)
    (hslash : ['/', '*'] <+: g → ∀ as bs,
      cellsFrom 0 (some '{') (body ++ '}' :: rest) = as ++ ⟨'/', false⟩ :: bs →
        bs.length ≠ rest.length + 1) : Enclosed (body ++ g) rest := by
  obtain ⟨bs, hlen, hdepth, hcells⟩ := h
  by_cases hlast : g.head? = some '/' ∧ bs.getLast? = some ⟨'/', false⟩
  · obtain ⟨hhead, hlast⟩ := hlast
    obtain ⟨init, rfl⟩ := List.getLast?_eq_some_iff.1 hlast
    rw [List.append_assoc, List.singleton_append] at hcells
    cases hg with
    | space _ hg => exact absurd (hg '/' (List.mem_of_mem_head? hhead)) (by decide)
    | block =>
      refine absurd ?_ (hslash ⟨_, rfl⟩ _ _ hcells)
      simp [length_cellsFrom]
    | @line w _ hend =>
      obtain ⟨body, rfl⟩ : ∃ b, body = b ++ ['/'] := by
        have hchars := congrArg (List.map (·.char)) hcells
        rw [cellsFrom_char, List.map_append, List.map_cons, List.map_cons, cellsFrom_char] at hchars
        exact ⟨init.map (·.char), (List.append_left_inj ('}' :: rest)).1 (by simpa using hchars)⟩
      have hline : Neutral ('/' :: '/' :: ('/' :: w ++ ['\n'])) _ :=
        neutral_line (by simpa using hend)
      rw [List.append_assoc, List.singleton_append] at hcells
      rw [depthAfter_slash] at hdepth
      have henclosed : Enclosed (body ++ '/' :: '/' :: ('/' :: w ++ ['\n'])) rest :=
        hline.enclosed (by simp [isBland]) nofun (by decide) hcells (by simpa using hlen) hdepth
          (fun _ hlast => ?_) (by simp)
      · simpa using henclosed
      · obtain ⟨as, rfl⟩ := List.getLast?_eq_some_iff.1 hlast
        rw [List.append_assoc] at hcells
        exact not_live_slashes hcells
  · obtain ⟨gs, hneutral⟩ := hg.exists_neutral
    refine hneutral.enclosed (fun c hc => ?_) (hg.tail_head? (by simp)) (by decide) hcells hlen
      hdepth (fun hhead hlive => hlast ⟨hhead, hlive⟩) hg.ne_nil
    rcases hg.head c hc with rfl | hc
    · decide
    · simp [isBland, hc]

theorem Enclosed.near (h : Enclosed body rest) (hnear : Near rest rest') : Enclosed body rest' := by
  obtain ⟨bs, hlen, hdepth, hcells⟩ := h
  refine ⟨bs, hlen, hdepth, ?_⟩
  by_cases htick : rest'.head? = some '\''
  · obtain ⟨t', rfl⟩ := List.head?_eq_some_iff.1 htick
    rcases hnear with hhead | ⟨c, hc, hgap⟩
    · obtain ⟨t, rfl⟩ := List.head?_eq_some_iff.1 hhead.symm
      exact cellsFrom_before_brace hcells hlen t'
    · cases hc
      rcases hgap with heq | hspace
      · exact absurd heq (by decide)
      · exact absurd hspace (by decide)
  · have hslash : '}' = '/' → bs.getLast? ≠ some ⟨'/', false⟩ := fun h => absurd h (by decide)
    rw [cellsFrom_before_seam (by decide) hcells hlen (by decide) htick hslash, cellsFrom_rbrace]

theorem Enclosed.ends {s s' r : State} {p : Position} {prev : Option Char}
    (h : Enclosed body rest) (hmem : .lbrace ∈ s.expects)
    (hfeed : s.feed (tokenAt .lbrace p ['{']) = some s')
    (hends : Ends s' ('}' :: Body.maskFrom false (some '}') rest) r) :
    Ends s (Body.maskFrom true prev ('{' :: (body ++ '}' :: rest))) r := by
  have hinit := State.initializer_not_expected hmem nofun
  have hscan : scan s.expects
      (['{'] ++ (body.map blankOut ++ '}' :: Body.maskFrom false (some '}') rest)) =
        .lexeme .lbrace 1 := scan_mark .lbrace hmem hinit
  rw [h.maskFrom]
  exact .lexeme hscan hfeed ((Ends.spaces_iff isGapSpace_of_mem_blankOut).2 hends)

end

end NativeBinding.Grammar
