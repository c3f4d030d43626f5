import NativeBinding.Proofs.Grammar.Leading

/-!
Runs up to a brace or an equals sign. The tokens before such a mark tell whether a signature is
under way there, so that what a brace encloses is taken for a body. Piece by piece, a run tells more:
what stands between the mark and the place where it starts, and which blocks are bodies.
-/

namespace NativeBinding.Grammar

open Text Body

/-- The braces of a body match, and the brace after it closes it. -/
def Enclosed (body rest : List Char) : Prop :=
  ∃ as : List Cell, as.length = body.length ∧ depthAfter 0 as = some 0 ∧
    cellsFrom 0 (some '{') (body ++ '}' :: rest) =
      as ++ ⟨'}', false⟩ :: cellsFrom 0 (some '}') rest

theorem Enclosed.maskFrom {body rest : List Char} (h : Enclosed body rest) (prev : Option Char) :
    maskFrom true prev ('{' :: (body ++ '}' :: rest)) =
      '{' :: (body.map blankOut ++ '}' :: maskFrom false (some '}') rest) := by
  obtain ⟨as, hlen, hdepth, hcells⟩ := h
  exact maskFrom_body hcells hlen hdepth prev

theorem Enclosed.closing {body rest : List Char} (h : Enclosed body rest) (d : Nat)
    (prev : Option Char) :
    closing d (cellsFrom 0 prev ('{' :: (body ++ '}' :: rest))) = none ↔
      Body.closing d (cellsFrom 0 (some '}') rest) = none := by
  obtain ⟨as, -, hdepth, hcells⟩ := h
  have hbody : depthAfter d (⟨'{', false⟩ :: (as ++ [⟨'}', false⟩])) = some d := by
    have has : depthAfter (d + 1) as = some (d + 1) := by
      simpa [Nat.add_comm] using depthAfter_add hdepth (d + 1)
    change depthAfter (d + 1) (as ++ [⟨'}', false⟩]) = some d
    rw [Body.depthAfter_append has]
    rfl
  have hsplit : cellsFrom 0 prev ('{' :: (body ++ '}' :: rest)) =
      (⟨'{', false⟩ :: (as ++ [⟨'}', false⟩])) ++ cellsFrom 0 (some '}') rest := by
    rw [cellsFrom_brace, hcells]
    simp
  rw [hsplit, closing_append hbody, Option.map_eq_none_iff]

/-- Whether a signature is under way after some tokens. After a block that is taken for a body and
not closed there is no saying. -/
def signatureFlag : Bool → Option Token → List Token → Option Bool
  | b, _, [] => some b
  | b, before, t :: ts =>
      if t.kind = .lbrace ∧ b = true ∧ ¬ ∃ u ∈ ts.head?, u.kind = .rbrace then none
      else signatureFlag (t.signatureAfter b before ts.head?) (some t) ts

section

variable {b : Bool} {before : Option Token} {t : Token} {ts : List Token}

theorem signatureFlag_cons (h : ¬ (t.kind = .lbrace ∧ b = true)) :
    signatureFlag b before (t :: ts) =
      signatureFlag (t.signatureAfter b before ts.head?) (some t) ts := by
  rw [signatureFlag, if_neg fun h' => h ⟨h'.1, h'.2.1⟩]

theorem signatureFlag_open (ht : t.kind = .lbrace) (h : ¬ ∃ u ∈ ts.head?, u.kind = .rbrace) :
    signatureFlag true before (t :: ts) = none := by
  rw [signatureFlag, if_pos ⟨ht, rfl, h⟩]

theorem signatureFlag_block (p q : Position) :
    signatureFlag true before (tokenAt .lbrace p ['{'] :: tokenAt .rbrace q ['}'] :: ts) =
      signatureFlag false (some (tokenAt .rbrace q ['}'])) ts := by
  have hclose (after : Option Token) : (tokenAt .rbrace q ['}']).signatureAfter false
      (some (tokenAt .lbrace p ['{'])) after = false := by
    rw [Token.signatureAfter, tokenAt_text]
    simp [signatureAfter, opensSignature]
  rw [signatureFlag, if_neg fun h => h.2.2 ⟨_, rfl, rfl⟩, Token.signatureAfter_lbrace,
    signatureFlag_cons (by simp), hclose]

end

/-- A run from a text `u` to the mark `m` behind it, piece by piece, and the flag of the mask where
it ends. A block that opens while the flag is set is a body, which is passed as a whole, or it is
never closed, and the flag is lost. -/
inductive Course (m : Char) (rest : List Char) (s' : State) (p' : Position) :
    Bool → Option Char → List Char → State → Position → List Token → Option Bool → Prop
  | done {b : Bool} {prev : Option Char} : Course m rest s' p' b prev [] s' p' [] (some b)
  | gap {b : Bool} {prev : Option Char} {v u : List Char} {s : State} {p : Position}
      {ts : List Token} {flag : Option Bool}
      (hscan : scan s.expects (maskFrom b prev (v ++ (u ++ m :: rest))) = .gap v.length)
      (h : Course m rest s' p' b (lastOf prev v) u s (Position.past p v) ts flag) :
      Course m rest s' p' b prev (v ++ u) s p ts flag
  | lexeme {b : Bool} {prev : Option Char} {v u : List Char} {s s₁ : State} {p : Position}
      {ts : List Token} {flag : Option Bool} {k : Terminal} (hk : k ≠ .initializer)
      (hb : k = .lbrace → b = false)
      (hscan : scan s.expects (maskFrom b prev (v ++ (u ++ m :: rest))) = .lexeme k v.length)
      (hfeed : s.feed (tokenAt k p v) = some s₁) (happart : k.Apart (u ++ m :: rest))
      (hpoint : k = .number → (u ++ m :: rest).head? ≠ some '.')
      (h : Course m rest s' p'
        (signatureAfter b (prev.any isWord) ((u ++ m :: rest).head?.any isWord) v)
        (lastOf prev v) u s₁ (Position.past p v) ts flag) :
      Course m rest s' p' b prev (v ++ u) s p (tokenAt k p v :: ts) flag
  | initializer {b b₁ : Bool} {prev prev₁ : Option Char} {v u : List Char} {s s₁ : State}
      {p : Position} {ts : List Token} {flag : Option Bool} (hv : Complete v)
      (hprev : prev.any isWord = false)
      (hscan : scan s.expects (maskFrom b prev (v ++ ';' :: (u ++ m :: rest))) =
        .lexeme .initializer v.length)
      (hfeed : s.feed (tokenAt .initializer p (maskFrom b none v)) = some s₁)
      (h : Course m rest s' p' b₁ prev₁ (';' :: u) s₁ (Position.past p (maskFrom b none v)) ts
        flag) :
      Course m rest s' p' b prev (v ++ ';' :: u) s p
        (tokenAt .initializer p (maskFrom b none v) :: ts) flag
  | body {prev : Option Char} {body u : List Char} {s s₁ s₂ : State} {p : Position}
      {ts : List Token} {flag : Option Bool} (hbody : Enclosed body (u ++ m :: rest))
      (hmem : .lbrace ∈ s.expects) (hfeed : s.feed (tokenAt .lbrace p ['{']) = some s₁)
      (hclose : .rbrace ∈ s₁.expects)
      (hfeed₂ : s₁.feed (tokenAt .rbrace (Position.past (p.after '{') body) ['}']) = some s₂)
      (h : Course m rest s' p' false (some '}') u s₂
        ((Position.past (p.after '{') body).after '}') ts flag) :
      Course m rest s' p' true prev ('{' :: (body ++ '}' :: u)) s p
        (tokenAt .lbrace p ['{'] ::
          tokenAt .rbrace (Position.past (p.after '{') body) ['}'] :: ts) flag
  | unclosed {prev : Option Char} {u : List Char} {s s₁ : State} {p : Position} {ts : List Token}
      (hclosing : closing 0 (cellsFrom 0 (some '{') (u ++ m :: rest)) = none)
      (hreads : Reads s₁ (p.after '{') (u ++ m :: rest) ts s' p' (m :: rest))
      (hbeside : Beside s₁ (some (tokenAt .lbrace p ['{'])) (p.after '{') (some '{')
        (u ++ m :: rest))
      (hcloses : Closes (p.after '{') u ts) :
      Course m rest s' p' true prev ('{' :: u) s p (tokenAt .lbrace p ['{'] :: ts) none

section

variable {m : Char} {rest : List Char} {b : Bool} {prev : Option Char} {before : Option Token}
  {s s₁ s' : State} {p p' : Position} {ts us : List Token} {cs' u v text : List Char} {n : Nat}

theorem Reads.le_of_mark {q : Position}
    (h : Reads s q ((maskFrom b prev (u ++ m :: rest)).drop n) ts s' p' cs')
    (hlen : cs'.length = rest.length + 1) : n ≤ u.length := by
  have := h.length_le
  simp only [List.length_drop, length_maskFrom, List.length_append, List.length_cons] at this
  omega

theorem take_drop_of_append {cs w r : List Char} (h : cs = w ++ r) :
    cs.take w.length = w ∧ cs.drop w.length = r := by
  rw [h, List.take_left, List.drop_left]
  exact ⟨rfl, rfl⟩

theorem exists_of_initializerLength
    (hlength : initializerLength (maskFrom b prev (u ++ m :: rest)) = some n) (hn : n ≤ u.length)
    (hm : m ≠ ';') : ∃ w v, u = w ++ ';' :: v ∧ n = w.length := by
  have hstop := drop_of_initializerLength_mask hlength
  rw [drop_of_leading hn] at hstop
  cases hdrop : u.drop n with
  | nil => exact absurd (by simpa [hdrop] using hstop) hm
  | cons d v =>
    obtain rfl : d = ';' := by simpa [hdrop] using hstop
    exact ⟨u.take n, v, by rw [← hdrop, List.take_append_drop],
      (List.length_take_of_le hn).symm⟩

theorem Reads.not_rbrace (hclosing : closing 0 (cellsFrom 0 (some '{') text) = none)
    (h : Reads s p text ts s' p' cs') : ¬ ∃ t ∈ ts.head?, t.kind = .rbrace := by
  rintro ⟨t, ht, hkind⟩
  obtain ⟨us, rfl⟩ := List.head?_eq_some_iff.1 ht
  obtain ⟨_, _, bs, -, hcells, -, hdepth, -⟩ := h.to_rbrace hkind (some '{')
  rw [hcells, closing_of_balanced hdepth] at hclosing
  cases hclosing

theorem Reads.exists_of_blank {body r masked : List Char}
    (h : Reads s p (body.map blankOut ++ '}' :: masked) ts s' p' cs')
    (hsplit : u ++ m :: rest = body ++ '}' :: r) (hmasked : masked.length = r.length)
    (hlen : cs'.length = rest.length + 1) (hhead : cs'.head? = some m)
    (hm : m ≠ '}' ∧ isGapSpace m = false) :
    ∃ v, u = body ++ '}' :: v ∧ r = v ++ m :: rest := by
  rcases List.append_eq_append_iff.1 hsplit with ⟨a, rfl, ha⟩ | ⟨a, rfl, ha⟩
  · exfalso
    cases a with
    | nil => exact absurd (List.cons.inj ha).1 hm.1
    | cons d a =>
      obtain ⟨rfl, ha⟩ := List.cons.inj ha
      have hr := congrArg List.length ha
      simp only [List.length_append, List.length_cons] at hr
      have hdrop := h.eq_drop
      have hk : ((u ++ m :: a).map blankOut ++ '}' :: masked).length - cs'.length =
          (u.map blankOut).length := by
        simp only [List.length_append, List.length_map, List.length_cons]
        omega
      -- The mark would be blank.
      rw [hk, List.map_append, List.append_assoc, List.drop_left] at hdrop
      rw [hdrop] at hhead
      have hspace := isGapSpace_blankOut m
      rw [Option.some.inj hhead, hm.2] at hspace
      cases hspace
  · cases a with
    | nil => exact absurd (List.cons.inj ha).1.symm hm.1
    | cons d a =>
      obtain ⟨rfl, hrest⟩ := List.cons.inj ha
      exact ⟨a, rfl, hrest⟩

theorem Reads.eq_of_mark (h : Reads s p (u ++ m :: rest) ts s' p' cs')
    (hlen : cs'.length = rest.length + 1) : cs' = m :: rest := by
  have hdrop := h.eq_drop
  have hk : (u ++ m :: rest).length - cs'.length = u.length := by
    simp only [List.length_append, List.length_cons]
    omega
  rwa [hk, List.drop_left] at hdrop

def CourseFrom (m : Char) (rest : List Char) (s' : State) (p' : Position) (cs' u : List Char) :
    Prop :=
  ∀ {b : Bool} {prev : Option Char} {before : Option Token} {s : State} {p : Position}
    {ts : List Token},
    Reads s p (maskFrom b prev (u ++ m :: rest)) ts s' p' cs' →
    Beside s before p prev (maskFrom b prev (u ++ m :: rest)) → Closes p u ts →
    Course m rest s' p' b prev u s p ts (signatureFlag b before ts)

theorem course_gap (ih : CourseFrom m rest s' p' cs' u)
    (htext : text = maskFrom b prev (v ++ (u ++ m :: rest)))
    (hscan : scan s.expects text = .gap v.length)
    (hrest : Reads s (Position.past p (text.take v.length)) (text.drop v.length) ts s' p' cs')
    (hbeside : Beside s before p prev text) (hcloses : Closes p (v ++ u) ts) :
    Course m rest s' p' b prev (v ++ u) s p ts (signatureFlag b before ts) := by
  obtain ⟨g, hg⟩ := scan_gap hscan
  have hgap := hbeside.gap hg
  have hsource : g.length (v ++ (u ++ m :: rest)) = some v.length := by
    rw [← hg, htext]
    exact Gap.length_alike (alike_maskFrom b prev _) g
  have hmask := Gap.maskFrom hsource b prev
  rw [List.take_left, List.drop_left, ← htext] at hmask
  obtain ⟨htake, hdrop⟩ := take_drop_of_append hmask
  rw [htake, hdrop] at hrest hgap
  rw [htext] at hscan
  exact .gap hscan (ih hrest hgap hcloses.append)

theorem lexeme_of_masked {k : Terminal} (hk : k ≠ .initializer) (hb : k = .lbrace → b = false)
    (htext : text = maskFrom b prev (v ++ w)) (hscan : scan s.expects text = .lexeme k v.length)
    (hfeed : s.feed (tokenAt k p (text.take v.length)) = some s₁)
    (hresumes : Resumes s₁ (text.drop v.length)) :
    k.lexemeLength (v ++ w) = some v.length ∧ k.Apart w ∧
      text = v ++ maskFrom (signatureAfter b (prev.any isWord) (w.head?.any isWord) v)
        (lastOf prev v) w := by
  obtain ⟨hmem, hmasked⟩ := scan_lexeme_kind hscan
  have halike := alike_maskFrom b prev (v ++ w)
  rw [← htext] at halike
  have hlength : k.lexemeLength (v ++ w) = some v.length := by
    rw [← hmasked]
    exact Kind.length_alike halike (.terminal k) (by simpa using hk)
  have happart := Terminal.Apart.alike halike hlength (apart_of_feed hmem hfeed hresumes)
  have hmask := Terminal.maskFrom hk hlength happart hb prev
  rw [List.drop_left] at happart
  rw [List.take_left, List.drop_left, ← htext] at hmask
  exact ⟨hlength, happart, hmask⟩

theorem course_lexeme {k : Terminal} (ih : CourseFrom m rest s' p' cs' u) (hhalts : Halts cs')
    (hk : k ≠ .initializer) (hblock : ¬ (k = .lbrace ∧ b = true))
    (htext : text = maskFrom b prev (v ++ (u ++ m :: rest)))
    (hscan : scan s.expects text = .lexeme k v.length)
    (hfeed : s.feed (tokenAt k p (text.take v.length)) = some s₁)
    (hrest : Reads s₁ (Position.past p (text.take v.length)) (text.drop v.length) us s' p' cs')
    (hbeside : Beside s before p prev text)
    (hcloses : Closes p (v ++ u) (tokenAt k p (text.take v.length) :: us)) :
    Course m rest s' p' b prev (v ++ u) s p (tokenAt k p (text.take v.length) :: us)
      (signatureFlag b before (tokenAt k p (text.take v.length) :: us)) := by
  have hnext := Beside.lexeme hscan hfeed prev
  have hb : k = .lbrace → b = false := fun hk => by simpa using fun hb => hblock ⟨hk, hb⟩
  have hresumes := hrest.resumes hhalts
  obtain ⟨-, happart, hmask⟩ := lexeme_of_masked hk hb htext hscan hfeed hresumes
  have hsignature := Token.signatureAfter_eq hbeside hscan hrest hhalts b
  obtain ⟨htake, hdrop⟩ := take_drop_of_append hmask
  have hpoint : k = .number → (u ++ m :: rest).head? ≠ some '.' := by
    rintro rfl
    rw [(agree_maskFrom _ _ _).head?_eq, ← hdrop]
    exact hresumes.head?_ne_point hfeed
  rw [htake, hdrop, ← (agree_maskFrom _ _ _).head?_eq] at hsignature
  rw [htake] at hfeed hcloses ⊢
  rw [htake, hdrop, hsignature] at hrest hnext
  rw [htext] at hscan
  refine .lexeme hk hb hscan hfeed happart hpoint ?_
  rw [hsignature, signatureFlag_cons hblock]
  exact ih hrest hnext hcloses.tail.append

theorem course_initializer
    (ih : ∀ w : List Char, w.length < u.length → CourseFrom m rest s' p' cs' w)
    (hlen : cs'.length = rest.length + 1) (hm : m ≠ ';')
    (htext : text = maskFrom b prev (u ++ m :: rest))
    (hscan : scan s.expects text = .lexeme .initializer n)
    (hfeed : s.feed (tokenAt .initializer p (text.take n)) = some s₁)
    (hrest : Reads s₁ (Position.past p (text.take n)) (text.drop n) us s' p' cs')
    (hbeside : Beside s before p prev text)
    (hcloses : Closes p u (tokenAt .initializer p (text.take n) :: us)) :
    Course m rest s' p' b prev u s p (tokenAt .initializer p (text.take n) :: us)
      (signatureFlag b before (tokenAt .initializer p (text.take n) :: us)) := by
  subst htext
  have hlength := (scan_lexeme_kind hscan).2
  obtain ⟨v, w, rfl, rfl⟩ := exists_of_initializerLength hlength (hrest.le_of_mark hlen) hm
  have hnext := Beside.lexeme hscan hfeed prev
  have hv : Complete v := by
    have := hcloses.head
    rwa [List.length_take_of_le (Terminal.lexemeLength_bound hlength).2, List.take_left] at this
  have hprev := hbeside.prev_of_initializer hscan
  have hmask (b₁ : Bool) (prev₁ : Option Char) :
      maskFrom b prev (v ++ ';' :: w ++ m :: rest) =
        maskFrom b none v ++ maskFrom b₁ prev₁ (';' :: w ++ m :: rest) := by
    rw [List.append_assoc, List.cons_append, maskFrom_complete hv b hprev, maskFrom_semicolon]
  have hsplit (b₁ : Bool) (prev₁ : Option Char) := take_drop_of_append (hmask b₁ prev₁)
  rw [length_maskFrom] at hsplit
  rw [(hsplit b none).1] at hfeed hcloses hrest hnext ⊢
  rw [(hsplit ((tokenAt .initializer p (maskFrom b none v)).signatureAfter b before us.head?)
    (lastOf prev (maskFrom b none v))).2] at hrest hnext
  rw [signatureFlag_cons (by simp)]
  rw [List.append_assoc, List.cons_append] at hscan
  refine .initializer hv hprev hscan hfeed (ih _ ?_ hrest hnext ?_)
  · rw [List.length_append]
    have hpos := (Terminal.lexemeLength_bound hlength).1
    omega
  · rw [past_maskFrom]
    exact hcloses.tail.append

/-- A block that opens while the flag is set is a body that is closed before the mark, or it is
never closed. -/
theorem course_block
    (ih : ∀ w : List Char, w.length < u.length → CourseFrom m rest s' p' cs' w)
    (hlen : cs'.length = rest.length + 1) (hhead : cs'.head? = some m)
    (hm : m ≠ '}' ∧ isGapSpace m = false)
    (htext : text = maskFrom true prev (u ++ m :: rest))
    (hscan : scan s.expects text = .lexeme .lbrace n)
    (hfeed : s.feed (tokenAt .lbrace p (text.take n)) = some s₁)
    (hrest : Reads s₁ (Position.past p (text.take n)) (text.drop n) us s' p' cs')
    (hcloses : Closes p u (tokenAt .lbrace p (text.take n) :: us)) :
    Course m rest s' p' true prev u s p (tokenAt .lbrace p (text.take n) :: us)
      (signatureFlag true before (tokenAt .lbrace p (text.take n) :: us)) := by
  have hlength := (scan_lexeme_kind hscan).2
  have hnext := Beside.lexeme hscan hfeed prev
  obtain ⟨rfl, r, rfl⟩ := eq_cons_of_take (c := '{')
    (Terminal.take_of_spelling (t := .lbrace) rfl hlength) (Terminal.lexemeLength_bound hlength).2
  obtain ⟨u, rfl⟩ : ∃ v, u = '{' :: v := by
    have hfirst := (agree_maskFrom true prev (u ++ m :: rest)).head?_eq
    rw [← htext] at hfirst
    cases u with
    | nil =>
      have hle := hrest.length_le
      have := congrArg List.length htext
      simp only [length_maskFrom, List.nil_append, List.length_cons] at this
      simp at hle
      omega
    | cons c u => exact ⟨u, by rw [Option.some.inj hfirst]⟩
  change Course m rest s' p' true prev ('{' :: u) s p (tokenAt .lbrace p ['{'] :: us)
    (signatureFlag true before (tokenAt .lbrace p ['{'] :: us))
  have hcloses' : Closes (p.after '{') u us := hcloses.tail.append (v := ['{'])
  have hmasked := htext
  rw [List.cons_append, Body.maskFrom, cellsFrom_brace, maskCells_brace] at hmasked
  cases hclosing : closing 0 (cellsFrom 0 (some '{') (u ++ m :: rest)) with
  | none =>
    rw [hclosing, cellsFrom_char] at hmasked
    cases hmasked
    obtain rfl := Reads.eq_of_mark hrest hlen
    rw [signatureFlag_open rfl (hrest.not_rbrace hclosing)]
    exact .unclosed hclosing hrest hnext hcloses'
  | some k =>
    obtain ⟨bs, ds, hcells, -, hdepth⟩ := exists_of_closing hclosing
    obtain ⟨r, hsplit, rfl⟩ := cellsFrom_split hcells
    have hbody : Enclosed (bs.map (·.char)) r :=
      ⟨bs, by simp, hdepth, by rw [← hsplit]; exact hcells⟩
    rw [List.cons_append, hsplit, hbody.maskFrom] at htext
    obtain rfl := (List.cons.inj htext).2
    change Reads _ (p.after '{') (_ ++ '}' :: _) us s' p' cs' at hrest
    obtain ⟨v, rfl, rfl⟩ := hrest.exists_of_blank hsplit (length_maskFrom _ _ _) hlen hhead hm
    have hinit := State.initializer_not_expected_after hfeed
      (show Terminal.lbrace ≠ .equals by decide)
    have hle : cs'.length ≤ (maskFrom false (some '}') (v ++ m :: rest)).length := by
      simp only [hlen, length_maskFrom, List.length_append, List.length_cons]
      omega
    rw [Reads.blanks_iff _ (Nat.le_succ_of_le hle)] at hrest
    obtain ⟨hclose, s₂, us', rfl, hfeed₂, hrest⟩ := hrest.rbrace hinit hle
    rw [signatureFlag_block]
    refine .body hbody (scan_lexeme_kind hscan).1 hfeed hclose hfeed₂ (ih _ ?_ hrest ?_ ?_)
    · simp only [List.length_cons, List.length_append]
      omega
    · exact Beside.lexeme (scan_mark .rbrace hclose hinit) hfeed₂ none
    · have := hcloses'.tail
      rw [← List.singleton_append, ← List.append_assoc] at this
      have := this.append
      rwa [past_append] at this

theorem Reads.course (hm : m = '{' ∨ m = '=')
    (h : Reads s p (maskFrom b prev (u ++ m :: rest)) ts s' p' cs')
    (hlen : cs'.length = rest.length + 1) (hhead : cs'.head? = some m)
    (hbeside : Beside s before p prev (maskFrom b prev (u ++ m :: rest)))
    (hcloses : Closes p u ts) :
    Course m rest s' p' b prev u s p ts (signatureFlag b before ts) := by
  suffices hall : CourseFrom m rest s' p' cs' u from hall h hbeside hcloses
  clear h hbeside hcloses
  have hhalts : Halts cs' := by
    rcases hm with rfl | rfl
    · exact Or.inr (Or.inl hhead)
    · exact Or.inr (Or.inr hhead)
  have hsemi : m ≠ ';' := by
    rcases hm with rfl | rfl <;> decide
  have hsolid : m ≠ '}' ∧ isGapSpace m = false := by
    rcases hm with rfl | rfl <;> decide
  -- By the length of the text before the mark, since a body is passed as a whole.
  generalize hk : u.length = k
  induction k using Nat.strongRecOn generalizing u with
  | ind k ih =>
    subst hk
    have ih (v : List Char) (hv : v.length < u.length) : CourseFrom m rest s' p' cs' v :=
      ih _ hv rfl
    intro b prev before s p ts h hbeside hcloses
    have split {text : List Char} {n : Nat} {s₁ : State} {q : Position} {us : List Token}
        (htext : text = maskFrom b prev (u ++ m :: rest))
        (hrest : Reads s₁ q (text.drop n) us s' p' cs') : ∃ v w, u = v ++ w ∧ n = v.length := by
      rw [htext] at hrest
      have hn : n ≤ u.length := hrest.le_of_mark hlen
      exact ⟨u.take n, u.drop n, (List.take_append_drop n u).symm,
        (List.length_take_of_le hn).symm⟩
    generalize htext : maskFrom b prev (u ++ m :: rest) = text at h hbeside
    cases h with
    | done =>
      rw [← htext, length_maskFrom, List.length_append, List.length_cons] at hlen
      obtain rfl : u = [] := List.eq_nil_of_length_eq_zero (by omega)
      exact .done
    | @gap _ _ _ _ _ _ _ n hscan hrest =>
      have hpos := (scan_gap_bound hscan).1
      obtain ⟨v, w, rfl, rfl⟩ := split htext.symm hrest
      rw [List.append_assoc] at htext
      refine course_gap (ih w ?_) htext.symm hscan hrest hbeside hcloses
      rw [List.length_append]
      omega
    | @lexeme _ _ _ _ _ _ _ us k n hscan hfeed hrest =>
      by_cases hkind : k = .initializer
      · subst hkind
        exact course_initializer ih hlen hsemi htext.symm hscan hfeed hrest hbeside hcloses
      · by_cases hblock : k = .lbrace ∧ b = true
        · obtain ⟨rfl, rfl⟩ := hblock
          exact course_block ih hlen hhead hsolid htext.symm hscan hfeed hrest hcloses
        · have hpos := (scan_lexeme_bound hscan).1
          obtain ⟨v, w, rfl, rfl⟩ := split htext.symm hrest
          rw [List.append_assoc] at htext
          refine course_lexeme (ih w ?_) hhalts hkind hblock htext.symm hscan hfeed hrest hbeside
            hcloses
          rw [List.length_append]
          omega

end

end NativeBinding.Grammar
