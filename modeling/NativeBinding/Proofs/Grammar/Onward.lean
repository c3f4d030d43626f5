import NativeBinding.Proofs.Grammar.InsertionRun

/-!
Text up to a brace or an equals sign. The pieces before such a mark are masked and read alike
whatever follows it: each ends before the mark, and what it asks of the next character does not
change. Behind a block that is never closed the text is copied, and what follows the mark counts.
-/

namespace NativeBinding.Grammar

open Text Body

/-- Whatever follows the mark behind `u`, the reader comes to it with the same tokens, in the same
state and at the same place, and the mask with the same flag. -/
def Onward (m : Char) (b : Bool) (prev : Option Char) (u : List Char) (s : State) (p : Position)
    (ts : List Token) (s' : State) (p' : Position) (b' : Bool) : Prop :=
  ∀ r, Reads s p (maskFrom b prev (u ++ m :: r)) ts s' p' (maskFrom b' none (m :: r))

section

variable {m : Char} {s s₁ s' : State} {p p' : Position} {b b' : Bool} {prev : Option Char}
  {ts : List Token} {flag : Option Bool} {u v r₀ : List Char}

theorem Onward.exists_append (h : Onward m b prev u s p ts s' p' b') (r : List Char) :
    ∃ w, w.length = u.length ∧ maskFrom b prev (u ++ m :: r) = w ++ maskFrom b' none (m :: r) := by
  obtain ⟨w, hw, -⟩ := (h r).exists_append
  have hlen := congrArg List.length hw
  simp only [length_maskFrom, List.length_append] at hlen
  exact ⟨w, by omega, hw⟩

theorem maskFrom_equals (b : Bool) (prev : Option Char) (r : List Char) :
    maskFrom b prev ('=' :: r) = '=' :: maskFrom b (some '=') r := by
  rw [maskFrom, cellsFrom_plain_cons (by decide), maskCells_quiet_cons b prev (by decide)]
  rfl

theorem maskFrom_mark (hm : m = '{' ∨ m = '=') (b : Bool) (prev : Option Char) (r : List Char) :
    maskFrom b prev (m :: r) = maskFrom b none (m :: r) := by
  rcases hm with rfl | rfl
  · cases b with
    | false =>
      rw [maskFrom, maskFrom, cellsFrom_brace, cellsFrom_brace, maskCells_brace_outside,
        maskCells_brace_outside]
    | true =>
      rw [maskFrom, maskFrom, cellsFrom_brace, cellsFrom_brace, maskCells_brace, maskCells_brace]
  · rw [maskFrom_equals, maskFrom_equals]

theorem head?_before_mark (u r r' : List Char) : (u ++ m :: r).head? = (u ++ m :: r').head? := by
  cases u <;> rfl

theorem State.scan_gap_of_head {w rest rest' : List Char} (hhead : rest'.head? = rest.head?)
    (h : scan s.expects (w ++ rest) = .gap w.length) :
    scan s.expects (w ++ rest') = .gap w.length := by
  obtain ⟨g, hfind⟩ := find_of_scan_gap h
  have hg : g.length (w ++ rest) = some w.length := (length_of_fit hfind).1
  have hpos := (Gap.length_bound hg).1
  obtain ⟨c, w, rfl⟩ := List.exists_cons_of_length_pos hpos
  by_cases hspace : g = .space
  · subst hspace
    have hc : isGapSpace c := Gap.space_chars hg c (by simp)
    rw [List.cons_append, scan_spaces _ hc, Piece.gap.injEq] at h ⊢
    rw [← List.cons_append, length_takeWhile_append_iff] at h ⊢
    rwa [hhead]
  · have hraw : c :: w = ['r'] → rest.head? ≠ some '#' := by
      rintro heq -
      obtain rfl := Gap.starts_slash hspace hg
      cases heq
    exact State.scan_gap_seam hfind hspace ⟨Or.inl hhead, fun _ => Or.inl hhead, hraw, nofun⟩

theorem scan_gap_onward
    (hscan : scan s.expects (maskFrom b prev (v ++ (u ++ m :: r₀))) = .gap v.length)
    (r : List Char) :
    maskFrom b prev (v ++ (u ++ m :: r)) = v ++ maskFrom b (lastOf prev v) (u ++ m :: r) ∧
      scan s.expects (maskFrom b prev (v ++ (u ++ m :: r))) = .gap v.length := by
  have hsource := (State.scan_gap_alike (alike_maskFrom b prev _)).2 hscan
  have hscan' := State.scan_gap_of_head (head?_before_mark u r r₀) hsource
  obtain ⟨g, hg⟩ := scan_gap hscan'
  have hmask := Gap.maskFrom hg b prev
  rw [List.take_left, List.drop_left] at hmask
  exact ⟨hmask, (State.scan_gap_alike (alike_maskFrom b prev _)).1 hscan'⟩

theorem scan_lexeme_onward {k : Terminal} (hk : k ≠ .initializer) (hb : k = .lbrace → b = false)
    (hscan : scan s.expects (maskFrom b prev (v ++ (u ++ m :: r₀))) = .lexeme k v.length)
    (happart : k.Apart (u ++ m :: r₀))
    (hpoint : k = .number → (u ++ m :: r₀).head? ≠ some '.') (r : List Char) :
    maskFrom b prev (v ++ (u ++ m :: r)) = v ++ maskFrom
        (signatureAfter b (prev.any isWord) ((u ++ m :: r₀).head?.any isWord) v)
        (lastOf prev v) (u ++ m :: r) ∧
      scan s.expects (maskFrom b prev (v ++ (u ++ m :: r))) = .lexeme k v.length := by
  obtain ⟨hmem, hlength⟩ := scan_lexeme_kind hscan
  have hinit := State.initializer_not_expected hmem hk
  have hhead : (u ++ m :: r).head? = (u ++ m :: r₀).head? := head?_before_mark u r r₀
  have hlength : k.lexemeLength (v ++ (u ++ m :: r₀)) = some v.length := by
    rw [← hlength]
    exact Kind.length_alike (alike_maskFrom b prev _) (.terminal k) (by simpa using hk)
  have hseam : (Kind.terminal k).Seam v (u ++ m :: r₀) (u ++ m :: r) :=
    ⟨Or.inl hhead, fun _ => Or.inl hhead, happart.raw_head hk hlength,
      fun hnumber => hpoint (by simpa using hnumber)⟩
  have hlength' : k.lexemeLength (v ++ (u ++ m :: r)) = some v.length :=
    Kind.length_seam (k := .terminal k) (by simpa using hk) (by simp) hlength hseam
  have hmask := Terminal.maskFrom hk hlength'
    (by rw [List.drop_left]; exact happart.near hseam.near) hb prev
  rw [List.take_left, List.drop_left, hhead] at hmask
  refine ⟨hmask, ?_⟩
  rw [scan_mask hinit] at hscan ⊢
  exact scan_lexeme_seam hinit hscan hseam

theorem Course.onward (hm : m = '{' ∨ m = '=') (h : Course m r₀ s' p' b prev u s p ts flag)
    (hflag : flag = some b') : Onward m b prev u s p ts s' p' b' := by
  intro r
  induction h with
  | done =>
    cases hflag
    rw [List.nil_append, maskFrom_mark hm]
    exact .done
  | gap hscan _ ih =>
    have hrest := ih hflag
    obtain ⟨hmask, hscan⟩ := scan_gap_onward hscan r
    rw [hmask] at hscan
    rw [List.append_assoc, hmask, Reads.gap_iff hscan hrest.length_le]
    exact hrest
  | lexeme hk hb hscan hfeed happart hpoint _ ih =>
    have hrest := ih hflag
    obtain ⟨hmask, hscan⟩ := scan_lexeme_onward hk hb hscan happart hpoint r
    rw [hmask] at hscan
    rw [List.append_assoc, hmask, Reads.cons_iff hscan hrest.length_le hfeed]
    exact hrest
  | @initializer b b₁ prev _ v u s s₁ p ts _ hv hprev hscan hfeed _ ih =>
    have hrest := ih hflag
    have hscan : scan s.expects (maskFrom b none v ++ [] ++
        ';' :: maskFrom false (some ';') (u ++ m :: r)) =
          .lexeme .initializer (maskFrom b none v ++ []).length :=
      scan_initializer_spaces hv nofun hprev hscan
    rw [List.append_nil] at hscan
    rw [List.cons_append, maskFrom_semicolon] at hrest
    rw [List.append_assoc, List.cons_append, maskFrom_complete hv b hprev,
      Reads.cons_iff hscan hrest.length_le hfeed]
    exact hrest
  | @body prev body u s s₁ s₂ p ts _ hbody hmem hfeed hclose hfeed₂ _ ih =>
    have hrest := ih hflag
    have hbody : Enclosed body (u ++ m :: r) := hbody.near (Or.inl (head?_before_mark u r r₀))
    have hinit := State.initializer_not_expected hmem nofun
    have hinit₁ := State.initializer_not_expected hclose nofun
    have hopen (text : List Char) : scan s.expects (['{'] ++ text) = .lexeme .lbrace 1 :=
      scan_mark .lbrace hmem hinit
    have hclosed (text : List Char) : scan s₁.expects (['}'] ++ text) = .lexeme .rbrace 1 :=
      scan_mark .rbrace hclose hinit₁
    have htext : '{' :: (body ++ '}' :: u) ++ m :: r =
        '{' :: (body ++ '}' :: (u ++ m :: r)) := by simp
    have hrest₁ := (Reads.cons_iff (hclosed _) hrest.length_le hfeed₂).2 hrest
    have hrest₂ := (Reads.blanks_iff body (Nat.le_succ_of_le hrest.length_le)).2 hrest₁
    rw [htext, hbody.maskFrom]
    exact (Reads.cons_iff (hopen _) hrest₂.length_le hfeed).2 hrest₂
  | unclosed => cases hflag

/-- After a block that is never closed, a body stays as it is. -/
theorem Course.copied {body₀ body post : List Char}
    (h : Course '{' (body₀ ++ '}' :: post) s' p' b prev u s p ts flag) (hflag : flag = none)
    (hbody₀ : Enclosed body₀ post) (hbody : Enclosed body post) :
    ∃ w, w.length = u.length ∧ maskFrom b prev (u ++ '{' :: (body ++ '}' :: post)) =
      w ++ '{' :: (body ++ '}' :: post) := by
  induction h with
  | done => cases hflag
  | @gap _ _ v u _ _ _ _ hscan _ ih =>
    obtain ⟨w, hlen, hmask⟩ := ih hflag
    refine ⟨v ++ w, by rw [List.length_append, List.length_append, hlen], ?_⟩
    rw [List.append_assoc, (scan_gap_onward hscan _).1, hmask, List.append_assoc]
  | @lexeme _ _ v u _ _ _ _ _ _ hk hb hscan _ happart hpoint _ ih =>
    obtain ⟨w, hlen, hmask⟩ := ih hflag
    refine ⟨v ++ w, by rw [List.length_append, List.length_append, hlen], ?_⟩
    rw [List.append_assoc, (scan_lexeme_onward hk hb hscan happart hpoint _).1, hmask,
      List.append_assoc]
  | @initializer b _ prev _ v u _ _ _ _ _ hv hprev _ _ _ ih =>
    obtain ⟨w, hlen, hmask⟩ := ih hflag
    refine ⟨maskFrom b none v ++ w, ?_, ?_⟩
    · rw [List.length_append, List.length_append, hlen, length_maskFrom]
    · rw [List.cons_append, maskFrom_semicolon] at hmask
      rw [List.append_assoc, List.cons_append, maskFrom_complete hv b hprev, hmask,
        List.append_assoc]
  | @body prev inner u _ _ _ _ _ _ hinner _ _ _ _ _ ih =>
    obtain ⟨w, hlen, hmask⟩ := ih hflag
    have hinner : Enclosed inner (u ++ '{' :: (body ++ '}' :: post)) :=
      hinner.near (Or.inl (head?_before_mark u _ _))
    have htext : '{' :: (inner ++ '}' :: u) ++ '{' :: (body ++ '}' :: post) =
        '{' :: (inner ++ '}' :: (u ++ '{' :: (body ++ '}' :: post))) := by simp
    refine ⟨'{' :: (inner.map blankOut ++ '}' :: w), by simp [hlen], ?_⟩
    rw [htext, hinner.maskFrom, hmask]
    simp
  | @unclosed prev u _ _ _ _ hclosing hreads hbeside hcloses =>
    obtain ⟨as, prev', hleads⟩ := hreads.leads rfl (by simp) rfl hbeside hcloses
    refine ⟨'{' :: u, rfl, ?_⟩
    rw [hleads.cells] at hclosing
    obtain ⟨d, hdepth, hopen⟩ := closing_append_eq_none hclosing
    have hnone : closing 0 (cellsFrom 0 (some '{') (u ++ '{' :: (body ++ '}' :: post))) =
        none := by
      rw [hleads.cells, closing_append hdepth, Option.map_eq_none_iff, hbody.closing]
      rwa [hbody₀.closing] at hopen
    rw [List.cons_append, maskFrom, cellsFrom_brace, maskCells_brace, hnone, cellsFrom_char]

end

end NativeBinding.Grammar
