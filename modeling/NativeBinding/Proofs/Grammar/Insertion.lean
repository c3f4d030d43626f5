import NativeBinding.Proofs.Grammar.Course
import NativeBinding.Proofs.Grammar.Filler
import NativeBinding.Proofs.Grammar.Touching

/-!
Fillers in a text. The text before a place is masked and read alike whether white space or a comment
stands at the place or not, and what follows the place is read on from the same state.
-/

namespace NativeBinding.Grammar

open Text Body

/-- A place in a text, behind the white space `x`, where `g` may stand before the rest `post`. The
reader is in the state `s₁` before `x`, and reads on to the end. -/
structure Joint (x g post : List Char) (s₁ : State) (p₁ : Position) (cs : List Char)
    (us : List Token) (r : State) : Prop where
  blank : ∀ c ∈ x, isGapSpace c
  filler : Filler g
  length : cs.length = (x ++ post).length
  reads : ∃ q, Reads s₁ p₁ cs us r q []
  finish : r.finish?.isSome
  doc : x = [] → ∀ t ∈ s₁.tokens.getLast?, t.kind = .docComment → t.stop = p₁ → g.head? = some '\n'
  value : (∃ t ∈ s₁.tokens.getLast?, t.kind = .initializer) → ∀ c ∈ g, isGapSpace c
  equals : ['/', '/'] <+: g → .initializer ∉ s₁.expects
  words : ∀ t ∈ s₁.tokens.getLast?, ∀ u ∈ us.head?, t.stop = u.start → t.endsWord → u.startsWord →
    t.text.toList ≠ ['f', 'n'] ∧ u.text.toList ≠ ['f', 'n']

/-- What stands right behind a line comment `// w` goes on with it up to the end of its line, and
has white space after that. Behind the two slashes themselves, a comment would make a doc comment of
them. -/
structure Trails (w g : List Char) : Prop where
  slash : w = [] → g.head? ≠ some '/'
  space : ∀ c ∈ g.dropWhile (· != '\n'), isGapSpace c

/-- Wherever the reader finds two slashes before the last `n` characters of a text, the line ends
before those characters or `g` trails it. -/
def LinesEnd (g : List Char) (s : State) (p : Position) (cs : List Char) (n : Nat) : Prop :=
  ∀ ts s' p' w rest, Reads s p cs ts s' p' ('/' :: '/' :: (w ++ rest)) → rest.length = n →
    '\n' ∈ w ∨ Trails w g

theorem LinesEnd.of_reads {g : List Char} {s s' : State} {p p' : Position} {cs cs' : List Char}
    {ts : List Token} {n : Nat} (h : LinesEnd g s p cs n) (hreads : Reads s p cs ts s' p' cs') :
    LinesEnd g s' p' cs' n :=
  fun us s'' p'' w rest hrest => h (ts ++ us) s'' p'' w rest (hreads.trans hrest)

/-- What is known where the reader stands before `u`, on its way to the place. -/
structure Approach (x g post : List Char) (us : List Token) (b : Bool) (prev : Option Char)
    (u : List Char) (s : State) (p : Position) (ts : List Token) : Prop where
  beside : Beside s s.tokens.getLast? p prev (maskFrom b prev (u ++ (x ++ post)))
  closes : Closes p (u ++ (x ++ post)) (ts ++ us)
  nesting : ∃ d, nesting d (ts ++ us) = some 0
  lines : LinesEnd g s p (maskFrom b prev (u ++ (x ++ post))) post.length
  slash : ['/', '*'] <+: g → ∀ as bs,
    cellsFrom 0 prev (u ++ (x ++ post)) = as ++ ⟨'/', false⟩ :: bs → bs.length ≠ post.length

/-- Whatever way the reader takes from `u` to the place, it reads to the end with a filler there. -/
def Inserts (x g post : List Char) (s₁ : State) (p₁ : Position) (cs : List Char) (us : List Token)
    (r : State) (u : List Char) : Prop :=
  ∀ {b : Bool} {prev : Option Char} {s : State} {p : Position} {ts : List Token},
    Reads s p (maskFrom b prev (u ++ (x ++ post))) ts s₁ p₁ cs →
    Approach x g post us b prev u s p ts →
    Ends s (maskFrom b prev (u ++ (x ++ (g ++ post)))) r

section

variable {x g post cs : List Char} {s s' s₁ r : State} {p p₁ : Position} {us ts ts' : List Token}
  {b b' : Bool} {prev prev' : Option Char} {u v : List Char} {n : Nat}

theorem Approach.pass (ts : List Token) {as : List Cell}
    (h : Approach x g post us b prev (v ++ u) s p (ts ++ ts'))
    (hcells : cellsFrom 0 prev (v ++ (u ++ (x ++ post))) =
      as ++ cellsFrom 0 prev' (u ++ (x ++ post)))
    (hreads : Reads s p (maskFrom b prev (v ++ (u ++ (x ++ post)))) ts s' (Position.past p v)
      (maskFrom b' prev' (u ++ (x ++ post))))
    (hbeside : Beside s' s'.tokens.getLast? (Position.past p v) prev'
      (maskFrom b' prev' (u ++ (x ++ post)))) :
    Approach x g post us b' prev' u s' (Position.past p v) ts' := by
  obtain ⟨-, hcloses, ⟨d, hnesting⟩, hlines, hslash⟩ := h
  rw [List.append_assoc] at hcloses hlines hslash
  refine ⟨hbeside, ?_, ?_, hlines.of_reads hreads, fun hg cs bs heq => ?_⟩
  · rw [List.append_assoc] at hcloses
    exact Closes.append fun t ht => hcloses t (List.mem_append_right _ ht)
  · rw [List.append_assoc, nesting_append] at hnesting
    obtain ⟨e, -, he⟩ := Option.bind_eq_some_iff.1 hnesting
    exact ⟨e, he⟩
  · exact hslash hg (as ++ cs) bs (by rw [hcells, heq, List.append_assoc])

theorem Joint.ends (h : Joint x g post s₁ p₁ (maskFrom b prev (x ++ post)) us r)
    (hbeside : Beside s₁ s₁.tokens.getLast? p₁ prev (maskFrom b prev (x ++ post))) :
    Ends s₁ (maskFrom b prev (x ++ (g ++ post))) r := by
  obtain ⟨q, hreads⟩ := h.reads
  have hx := neutral_spaces h.blank
  have hlast := h.filler.last (lastOf prev x)
  have hmask : maskFrom b (lastOf (lastOf prev x) g) post = maskFrom b (lastOf prev x) post := by
    by_cases hne : x = []
    · subst hne
      exact hreads.maskFrom_unjoined hbeside (fun t ht u hu hstop ht' hu' =>
        (h.words t ht u hu hstop ht' hu').2) hlast
    · have hspace : (lastOf prev x).any isWord = false := by
        rw [lastOf_eq_getLast? hne, List.getLast?_eq_some_getLast hne]
        exact isGapSpace_not_isWord (h.blank _ (List.getLast_mem hne))
      exact maskFrom_congr (hlast.trans hspace.symm) b post
  rw [hx.maskFrom] at hreads
  rw [hx.maskFrom, h.filler.maskFrom, hmask, Ends.spaces_iff h.blank]
  exact h.filler.ends h.equals ((Ends.spaces_iff h.blank).1 (hreads.ends (.refl s₁)))

theorem head?_of_ne_nil (h : u ++ x ≠ []) (rest rest' : List Char) :
    (u ++ (x ++ rest)).head? = (u ++ (x ++ rest')).head? := by
  obtain ⟨c, w, hcons⟩ := List.exists_cons_of_ne_nil h
  rw [← List.append_assoc u x rest, ← List.append_assoc u x rest', hcons]
  rfl

theorem Filler.seam (hg : Filler g) {k : Kind}
    (hline : k = .terminal .docComment ∨ k = .gap .lineComment → u ++ x = [] → g.head? = some '\n')
    (hraw : v = ['r'] → (u ++ (x ++ post)).head? ≠ some '#')
    (hpoint : k = .terminal .number → (u ++ (x ++ post)).head? ≠ some '.') :
    k.Seam v (u ++ (x ++ post)) (u ++ (x ++ (g ++ post))) := by
  by_cases hend : u ++ x = []
  · have hbreak : g.head? = some '\n' → (u ++ (x ++ (g ++ post))).head? = some '\n' := by
      obtain ⟨rfl, rfl⟩ := List.append_eq_nil_iff.1 hend
      intro hbreak
      rw [List.nil_append, List.nil_append, List.head?_append, hbreak]
      rfl
    refine ⟨?_, fun hk => Or.inr (hbreak (hline hk hend)), hraw, hpoint⟩
    obtain ⟨rfl, rfl⟩ := List.append_eq_nil_iff.1 hend
    exact hg.near post
  · have hhead := head?_of_ne_nil hend (g ++ post) post
    exact ⟨Or.inl hhead, fun _ => Or.inl hhead, hraw, hpoint⟩

theorem State.scan_gap_seam {w rest rest' : List Char} {k : Gap}
    (h : priority.findSome? (fit s.expects (w ++ rest)) = some (.gap k, w.length))
    (hspace : k ≠ .space) (hseam : (Kind.gap k).Seam w rest rest') :
    scan s.expects (w ++ rest') = .gap w.length := by
  by_cases hinit : .initializer ∈ s.expects
  · obtain ⟨place, colon, type, eq, rfl⟩ := constEquals_of_expects hinit
    have hk : k.length (w ++ rest) = some w.length := (length_of_fit h).1
    have hscan : scan [.initializer] (w ++ rest) = .gap w.length := by
      change priority.findSome? (fit [.initializer] _) = _ at h
      rw [scan_eq, h]
    change scan [.initializer] (w ++ rest') = _
    rcases scan_initializer_eq_gap_iff.1 hscan with hblock | ⟨-, hspace'⟩
    · have hseam' : (Kind.gap .blockComment).Seam w rest rest' :=
        ⟨hseam.near, fun h => by simp at h, hseam.raw, nofun⟩
      exact scan_initializer_eq_gap_iff.2
        (Or.inl (Kind.length_seam (k := .gap .blockComment) nofun nofun hblock hseam'))
    · exfalso
      cases w with
      | nil => exact absurd (Gap.length_bound hk).1 (by simp)
      | cons c w =>
        obtain rfl := Gap.starts_slash hspace hk
        exact absurd (Gap.space_chars hspace' '/' (by simp)) (by decide)
  · exact Grammar.scan_gap_seam hinit h hspace hseam

theorem maskFrom_line {rest : List Char} (h : ∀ c ∈ rest.head?, (c != '\n') = false) (b : Bool)
    (prev prev' : Option Char) : maskFrom b prev rest = maskFrom b prev' rest := by
  cases rest with
  | nil => rw [maskFrom_nil, maskFrom_nil]
  | cons c rest =>
    obtain rfl : c = '\n' := by simpa using h c rfl
    rw [maskFrom, maskFrom, cellsFrom_plain_cons (by decide), cellsFrom_plain_cons (by decide),
      maskCells_quiet_cons b prev (by decide), maskCells_quiet_cons b prev' (by decide)]

theorem State.initializer_not_expected_of_lineComment {cs : List Char} {n : Nat}
    (hfind : priority.findSome? (fit s.expects cs) = some (.gap .lineComment, n)) :
    .initializer ∉ s.expects := by
  intro hinit
  obtain ⟨place, colon, type, eq, rfl⟩ := State.constEquals_of_expects hinit
  change priority.findSome? (fit [.initializer] _) = _ at hfind
  obtain ⟨w, hw⟩ : ∃ w, cs = '/' :: '/' :: w := by
    have hlength : Gap.lineComment.length cs = some n := (length_of_fit hfind).1
    obtain ⟨w, rfl, -⟩ := Gap.lineComment_eq_some_iff.1 hlength
    exact ⟨w, rfl⟩
  subst hw
  have hscan := scan_eq [.initializer] ('/' :: '/' :: w)
  rw [hfind, scan_initializer_eq_gap_iff] at hscan
  rcases hscan with hblock | ⟨-, hspace⟩
  · cases hblock
  · have hlength : Gap.lineComment.length ('/' :: '/' :: w) = some n := (length_of_fit hfind).1
    have hn : 0 < n := (Gap.length_bound hlength).1
    obtain ⟨n, rfl⟩ := Nat.exists_eq_add_of_lt hn
    exact absurd (Gap.space_chars hspace '/' (by simp)) (by decide)

theorem Trails.docComment_not_fit {w rest : List Char} (h : Trails w g)
    (hinit : .initializer ∉ s.expects)
    (hfind : priority.findSome? (fit s.expects ('/' :: '/' :: w ++ rest)) =
      some (.gap .lineComment, n)) :
    fit s.expects ('/' :: '/' :: w ++ (g ++ rest)) (.terminal .docComment) = none := by
  have hnone : fit s.expects ('/' :: '/' :: w ++ rest) (.terminal .docComment) = none := by
    rw [Option.eq_none_iff_forall_ne_some]
    rintro ⟨a, m⟩ hfit
    obtain ⟨rfl, -, -⟩ := fit_eq_some_iff.1 hfit
    simp only [priority, List.cons_append, List.findSome?_cons] at hfind hfit
    rw [hfit] at hfind
    cases hfind
  refine fit_eq_none_seam hinit (fun _ hlength => ?_) hnone
  change docCommentLength _ = none at hlength
  change docCommentLength _ = none
  rw [List.cons_append, List.cons_append, docComment_eq_none_iff] at hlength ⊢
  cases w with
  | cons c w => exact hlength
  | nil =>
    cases g with
    | nil => exact hlength
    | cons c g => exact h.slash rfl

theorem Trails.ends {w rest : List Char} (h : Trails w g)
    (hfind : priority.findSome? (fit s.expects ('/' :: '/' :: w ++ rest)) =
      some (.gap .lineComment, ('/' :: '/' :: w).length))
    (hends : Ends s (maskFrom b (lastOf prev ('/' :: '/' :: w)) rest) r) :
    Ends s (maskFrom b prev ('/' :: '/' :: w ++ (g ++ rest))) r := by
  have hlength : Gap.lineComment.length ('/' :: '/' :: w ++ rest) =
      some ('/' :: '/' :: w).length := (length_of_fit hfind).1
  have hinit := State.initializer_not_expected_of_lineComment hfind
  have hdoc := h.docComment_not_fit hinit hfind
  obtain ⟨_, ⟨⟩, hw, hrest⟩ := lineComment_iff.1 hlength
  have hsplit := List.takeWhile_append_dropWhile (p := (· != '\n')) (l := g)
  have hspaces := h.space
  have hline : ∀ c ∈ g.takeWhile (· != '\n'), (c != '\n') = true :=
    fun _ hc => List.mem_takeWhile_imp (p := (· != '\n')) hc
  have hend : ∀ c ∈ (g.dropWhile (· != '\n') ++ rest).head?, (c != '\n') = false := by
    have hstop := List.head?_dropWhile_not (· != '\n') g
    cases hdrop : g.dropWhile (· != '\n') with
    | nil => exact fun c hc => hrest c (by simpa using hc)
    | cons d g =>
      rintro c ⟨⟩
      simpa [hdrop] using hstop
  generalize g.takeWhile (· != '\n') = g₁ at *
  generalize g.dropWhile (· != '\n') = g₂ at *
  subst hsplit
  have htext : '/' :: '/' :: w ++ (g₁ ++ g₂ ++ rest) = '/' :: '/' :: (w ++ g₁) ++ (g₂ ++ rest) := by
    simp
  have hlength' : Gap.lineComment.length ('/' :: '/' :: (w ++ g₁) ++ (g₂ ++ rest)) =
      some ('/' :: '/' :: (w ++ g₁)).length :=
    lineComment_iff.2 ⟨_, rfl, List.forall_mem_append.2 ⟨hw, hline⟩, hend⟩
  have hmask := Gap.maskFrom hlength' b prev
  rw [List.take_left, List.drop_left, (neutral_spaces hspaces).maskFrom,
    maskFrom_line hrest b _ (lastOf prev ('/' :: '/' :: w))] at hmask
  rw [htext] at hdoc ⊢
  have hscan := scan_lineComment hinit hdoc hlength'
  change scan s.expects ('/' :: '/' :: (w ++ g₁) ++ (g₂ ++ rest)) = _ at hscan
  rw [← scan_mask hinit b prev, hmask] at hscan
  rw [hmask]
  exact (Ends.gap_iff hscan).2 ((Ends.spaces_iff hspaces).2 hends)

theorem Joint.ends_lineComment {post : List Char} (h : Joint [] g post s₁ p₁ cs us r)
    (hfind : priority.findSome? (fit s.expects (v ++ post)) = some (.gap .lineComment, v.length))
    (hrest : Reads s (Position.past p v) (maskFrom b (lastOf prev v) post) ts s₁ p₁ cs)
    (hlines : LinesEnd g s p (maskFrom b prev (v ++ post)) post.length) :
    Ends s (maskFrom b prev (v ++ (g ++ post))) r := by
  obtain ⟨q, hreads⟩ := h.reads
  obtain ⟨rfl, rfl, rfl, rfl⟩ := hrest.eq_of_length (by simp [h.length, length_maskFrom])
  have hlength : Gap.lineComment.length (v ++ post) = some v.length := (length_of_fit hfind).1
  have hmask := Gap.maskFrom hlength b prev
  obtain ⟨w, rfl, hw, -⟩ := lineComment_iff.1 hlength
  rw [List.take_left, List.drop_left] at hmask
  rcases hlines [] _ _ w _ (by rw [hmask]; exact .done) (length_maskFrom _ _ _) with hend | htrails
  · exact absurd (hw '\n' hend) (by decide)
  · exact htrails.ends hfind (hreads.ends (.refl s₁))

theorem Inserts.gap (h : Inserts x g post s₁ p₁ cs us r u) (hjoint : Joint x g post s₁ p₁ cs us r)
    (hscan : scan s.expects (maskFrom b prev (v ++ (u ++ (x ++ post)))) = .gap v.length)
    (hrest : Reads s (Position.past p ((maskFrom b prev (v ++ (u ++ (x ++ post)))).take v.length))
      ((maskFrom b prev (v ++ (u ++ (x ++ post)))).drop v.length) ts s₁ p₁ cs)
    (happroach : Approach x g post us b prev (v ++ u) s p ts) :
    Ends s (maskFrom b prev (v ++ (u ++ (x ++ (g ++ post))))) r := by
  have hsource := (State.scan_gap_alike (alike_maskFrom b prev _)).2 hscan
  obtain ⟨k, hfind⟩ := find_of_scan_gap hsource
  have hk := (length_of_fit hfind).1
  have hcells := Gap.cells hk prev
  have hmask := Gap.maskFrom hk b prev
  rw [List.take_left, List.drop_left] at hcells hmask
  have hbeside := happroach.beside.gap (g := k) (n := v.length) (by
    rw [List.append_assoc, ← hk]
    exact (Gap.length_alike (alike_maskFrom b prev _) k).symm)
  rw [List.append_assoc, hmask, List.take_left, List.drop_left] at hbeside
  rw [hmask, List.take_left, List.drop_left] at hrest
  have hpass : Approach x g post us b (lastOf prev v) u s (Position.past p v) ts := by
    refine Approach.pass [] happroach hcells ?_ hbeside
    rw [hmask] at hscan ⊢
    exact (Reads.gap_iff hscan (Nat.le_refl _)).2 .done
  have hends := h hrest hpass
  by_cases hspace : k = .space
  · subst hspace
    have hblank : ∀ c ∈ v, isGapSpace c := by
      have := Gap.space_chars hk
      rwa [List.take_left] at this
    rw [(neutral_spaces hblank).maskFrom]
    exact (Ends.spaces_iff hblank).2 hends
  by_cases hline : k = .lineComment ∧ u ++ x = []
  · obtain ⟨rfl, hend⟩ := hline
    obtain ⟨rfl, rfl⟩ := List.append_eq_nil_iff.1 hend
    exact hjoint.ends_lineComment hfind hrest (by simpa using happroach.lines)
  · have hline : Kind.gap k = .terminal .docComment ∨ Kind.gap k = .gap .lineComment → u ++ x = [] →
        g.head? = some '\n' := by
      rintro (hk | hk) hend
      · cases hk
      · exact absurd ⟨Kind.gap.inj hk, hend⟩ hline
    have hraw : v = ['r'] → (u ++ (x ++ post)).head? ≠ some '#' := by
      rintro rfl
      exact absurd (Gap.starts_slash hspace hk) (by decide)
    have hseam : (Kind.gap k).Seam v _ _ := hjoint.filler.seam hline hraw nofun
    have hk' : k.length (v ++ (u ++ (x ++ (g ++ post)))) = some v.length :=
      Kind.length_seam (k := .gap k) nofun (fun heq => hspace (Kind.gap.inj heq)) hk hseam
    have hmask' := Gap.maskFrom hk' b prev
    have hscan' := State.scan_gap_seam hfind hspace hseam
    rw [State.scan_gap_alike (alike_maskFrom b prev _)] at hscan'
    rw [List.take_left, List.drop_left] at hmask'
    rw [hmask'] at hscan' ⊢
    exact (Ends.gap_iff hscan').2 hends

theorem Terminal.Apart.near {t : Terminal} {rest rest' : List Char} (h : t.Apart rest)
    (hnear : Near rest rest') : t.Apart rest' := by
  refine ⟨fun ht => ?_, fun ht heq => ?_⟩
  · have hraw := h.1 ht
    have hnot := hnear.not (p := fun c => c == '#' || c == '"') (by decide) fun c hc => by
      rwa [opensRaw, hc] at hraw
    cases rest' with
    | nil => rfl
    | cons c rest' => exact hnot c rfl
  · have hnot := hnear.not (p := (· == '\'')) (by decide) fun c hc => by
      have := h.2 ht
      rw [hc] at this
      simpa using this
    exact absurd (hnot '\'' heq) (by decide)

theorem Joint.signatureAfter_eq (h : Joint x g post s₁ p₁ cs us r) {text : List Char} {k : Terminal}
    {n : Nat} (hscan : scan s.expects text = .lexeme k n) (hk : k ≠ .initializer)
    (hfeed : s.feed (tokenAt k p (text.take n)) = some s')
    (hrest : Reads s' (Position.past p (text.take n)) (text.drop n) ts s₁ p₁ cs)
    (hhead : (text.drop n).head? = (u ++ (x ++ post)).head?)
    (hlen : (text.drop n).length = (u ++ (x ++ post)).length) (joined : Bool) :
    signatureAfter b joined ((u ++ (x ++ (g ++ post))).head?.any isWord) (text.take n) =
      signatureAfter b joined ((u ++ (x ++ post)).head?.any isWord) (text.take n) := by
  by_cases hend : u ++ x = []
  · obtain ⟨rfl, rfl⟩ := List.append_eq_nil_iff.1 hend
    obtain ⟨q, hreads⟩ := h.reads
    obtain ⟨rfl, rfl, rfl, rfl⟩ := hrest.eq_of_length (h.length.trans hlen.symm)
    have hgap : (([] : List Char) ++ ([] ++ (g ++ post))).head?.any isWord = false := by
      obtain ⟨c, w, rfl⟩ := List.exists_cons_of_ne_nil h.filler.ne_nil
      rcases h.filler.head c rfl with rfl | hc
      · exact show isWord '/' = false by decide
      · exact isGapSpace_not_isWord hc
    have hlast : s₁.tokens.getLast? = some (tokenAt k p (text.take n)) := by
      rw [State.feed_tokens hfeed, List.getLast?_concat]
    rw [hgap, ← hhead]
    exact (hreads.signatureAfter_continued hscan hk hfeed (fun t ht hstop hword ht' =>
      (h.words _ hlast t ht hstop hword ht').1) b joined).symm
  · rw [head?_of_ne_nil hend (g ++ post) post]

theorem Joint.doc_head (h : Joint [] g post s₁ p₁ cs us r) {text : List Char} {n : Nat}
    (hfeed : s.feed (tokenAt .docComment p (text.take n)) = some s')
    (hrest : Reads s' (Position.past p (text.take n)) (text.drop n) ts s₁ p₁ cs)
    (hlen : (text.drop n).length = post.length) : g.head? = some '\n' := by
  obtain ⟨rfl, rfl, rfl, rfl⟩ := hrest.eq_of_length (h.length.trans hlen.symm)
  refine h.doc rfl (tokenAt .docComment p (text.take n)) ?_ rfl rfl
  rw [State.feed_tokens hfeed, List.getLast?_concat]
  rfl

theorem Terminal.Apart.raw_head {k : Terminal} {rest : List Char} (h : k.Apart rest)
    (hk : k ≠ .initializer) (hlength : k.lexemeLength (v ++ rest) = some v.length) :
    v = ['r'] → rest.head? ≠ some '#' := by
  rintro rfl heq
  rcases Kind.starts_r (k := .terminal k) hlength with heq | heq <;> cases heq
  · have hraw := h.1 (Or.inl rfl)
    rw [opensRaw, heq] at hraw
    cases hraw
  · exact hk rfl

theorem Inserts.lexeme (h : Inserts x g post s₁ p₁ cs us r u)
    (hjoint : Joint x g post s₁ p₁ cs us r) {k : Terminal} (hk : k ≠ .initializer)
    (hb : k = .lbrace → b = false) {text : List Char}
    (htext : text = maskFrom b prev (v ++ (u ++ (x ++ post))))
    (hscan : scan s.expects text = .lexeme k v.length)
    (hfeed : s.feed (tokenAt k p (text.take v.length)) = some s')
    (hrest : Reads s' (Position.past p (text.take v.length)) (text.drop v.length) ts s₁ p₁ cs)
    (happroach : Approach x g post us b prev (v ++ u) s p
      (tokenAt k p (text.take v.length) :: ts)) :
    Ends s (maskFrom b prev (v ++ (u ++ (x ++ (g ++ post))))) r := by
  obtain ⟨q, hreads⟩ := hjoint.reads
  have hinit := State.initializer_not_expected (scan_lexeme_kind hscan).1 hk
  have hbeside := Beside.lexeme hscan hfeed prev
  have hresumes := (hrest.trans hreads).resumes (Or.inl rfl)
  obtain ⟨hlength, happart, hmask⟩ := lexeme_of_masked hk hb htext hscan hfeed hresumes
  have hcells := Terminal.cells hk hlength (by rwa [List.drop_left]) prev
  rw [List.take_left, List.drop_left] at hcells
  obtain ⟨htake, hdrop⟩ := take_drop_of_append hmask
  have hhead : (text.drop v.length).head? = (u ++ (x ++ post)).head? := by
    rw [hdrop, ← (agree_maskFrom _ _ _).head?_eq]
  have hlen : (text.drop v.length).length = (u ++ (x ++ post)).length := by
    rw [hdrop, length_maskFrom]
  have hflag := hjoint.signatureAfter_eq (b := b) hscan hk hfeed hrest hhead hlen (prev.any isWord)
  have hseam : (Kind.terminal k).Seam v (u ++ (x ++ post)) (u ++ (x ++ (g ++ post))) := by
    refine hjoint.filler.seam (fun hdoc hend => ?_) (happart.raw_head hk hlength) fun hnumber => ?_
    · obtain rfl : k = .docComment := by simpa using hdoc
      obtain ⟨rfl, rfl⟩ := List.append_eq_nil_iff.1 hend
      exact hjoint.doc_head hfeed hrest hlen
    · obtain rfl : k = .number := by simpa using hnumber
      rw [← hhead]
      exact hresumes.head?_ne_point hfeed
  have hlength' : k.lexemeLength (v ++ (u ++ (x ++ (g ++ post)))) = some v.length :=
    Kind.length_seam (k := .terminal k) (by simpa using hk) (by simp) hlength hseam
  have hmask' := Terminal.maskFrom hk hlength'
    (by rw [List.drop_left]; exact happart.near hseam.near) hb prev
  have hscan' : scan s.expects (maskFrom b prev (v ++ (u ++ (x ++ (g ++ post))))) =
      .lexeme k v.length := by
    rw [scan_mask hinit]
    refine scan_lexeme_seam hinit ?_ hseam
    rw [← scan_mask hinit b prev, ← htext, hscan]
  rw [htake] at hfeed hrest hflag hbeside happroach
  rw [hdrop] at hrest hbeside
  rw [List.take_left, List.drop_left, hflag] at hmask'
  rw [hmask'] at hscan' ⊢
  refine .lexeme hscan' hfeed (h hrest (Approach.pass [tokenAt k p v] happroach hcells ?_ ?_))
  · rw [← htext, hmask]
    rw [hmask] at hscan
    exact (Reads.cons_iff hscan (Nat.le_refl _) hfeed).2 .done
  · rwa [State.feed_tokens hfeed, List.getLast?_concat]

end

end NativeBinding.Grammar
