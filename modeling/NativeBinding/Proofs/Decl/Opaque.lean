import NativeBinding.Decl.Parse
import NativeBinding.Proofs.Decl.Edit
import NativeBinding.Proofs.Decl.Source
import NativeBinding.Proofs.Grammar.Onward

/-!
Function bodies are opaque as far as the mask finds them. A body is blanked exactly if a signature
is under way at its brace, which the tokens before the brace tell. What follows a blanked body is
then read alike whatever the body is, at the place to which the end of the body has moved. A
semicolon inside a signature, as in an array type, ends the signature for the mask.
-/

namespace NativeBinding

open Grammar Body

/-- A text with a block in braces. -/
def withBody (pre body post : List Char) : List Char :=
  pre ++ '{' :: (body ++ '}' :: post)

/-- Behind the mask, a text is read up to a brace that opens the body of a function, where the body
is empty. -/
def OpensBody (pre post : List Char) (ts : List Token) : Prop :=
  ∃ s p cs place result l,
    Reads .start .start (mask (withBody pre [' '] post)) ts s p ('{' :: cs) ∧
      cs.length = post.length + 2 ∧
      s.feed (tokenAt .lbrace p ['{']) = some (.bodyOpen place result l)

/-- The mask leaves spaces for a body, and nothing else moves. -/
def Blanked (pre body post : List Char) : Prop :=
  ∃ w rest, w.length = pre.length ∧
    mask (withBody pre body post) = withBody w (body.map blankOut) rest

namespace Grammar

theorem enclosed_of_plain {body : List Char} (h : ∀ c ∈ body, isPlain c) (hopen : '{' ∉ body)
    (hclose : '}' ∉ body) (post : List Char) : Enclosed body post := by
  refine ⟨run false body, length_run _ _, depthAfter_live hopen hclose 0, ?_⟩
  rw [cellsFrom_plain h, cellsFrom_rbrace]

theorem State.scan_of_bodyOpen {s : State} {l l' : Lexeme .lbrace} {place : ResultPlace}
    {result : Option (Lexeme .arrow × TypeTree)}
    (h : s.feed ⟨.lbrace, l⟩ = some (.bodyOpen place result l')) (cs : List Char) :
    scan s.expects ('{' :: cs) = .lexeme .lbrace 1 := by
  cases s with
  | visibility scope attrs v => obtain ⟨word, _ | restriction⟩ := v <;> cases h
  | route place r => cases place <;> cases h
  | pattern place p => cases place <;> cases h
  | path front segment place => cases segment <;> rfl
  | _ => first | rfl | cases h

def afterBody (place : ResultPlace) (result : Option (Lexeme .arrow × TypeTree))
    (opens : Lexeme .lbrace) (q : Position) : State :=
  .item (place.add result (.block opens ⟨String.ofList ['}'], q, q.after '}'⟩)) []

section

variable {w body rest : List Char} {s : State} {p : Position} {ts : List Token}
  {place : ResultPlace} {result : Option (Lexeme .arrow × TypeTree)} {l : Lexeme .lbrace}

theorem Reads.withBody_iff
    (h : Reads .start .start (withBody w (body.map blankOut) rest) ts s p
      ('{' :: (body.map blankOut ++ '}' :: rest)))
    (hfeed : s.feed (tokenAt .lbrace p ['{']) = some (.bodyOpen place result l))
    (items : List ItemTree) :
    (∃ us s' q, Reads .start .start (withBody w (body.map blankOut) rest) us s' q [] ∧
        s'.finish? = some items) ↔
      ∃ us s' q, Reads (afterBody place result l (Position.past (p.after '{') body))
        ((Position.past (p.after '{') body).after '}') rest us s' q [] ∧
          s'.finish? = some items := by
  let text := body.map blankOut ++ '}' :: rest
  let closed := Position.past (p.after '{') body
  have hopen : scan s.expects (['{'] ++ text) = .lexeme .lbrace 1 :=
    State.scan_of_bodyOpen hfeed text
  have hinit : .initializer ∉ (State.bodyOpen place result l).expects := by simp [State.expects]
  have hmem : .rbrace ∈ (State.bodyOpen place result l).expects := by simp [State.expects]
  have hclose : scan (State.bodyOpen place result l).expects ('}' :: rest) = .lexeme .rbrace 1 :=
    scan_mark .rbrace hmem hinit
  have htail (us : List Token) (s' : State) (q : Position) :
      Reads (.bodyOpen place result l) (p.after '{') text
          (tokenAt .rbrace closed ['}'] :: us) s' q [] ↔
        Reads (afterBody place result l closed) (closed.after '}') rest us s' q [] := by
    rw [Reads.blanks_iff _ (Nat.zero_le _), ← List.singleton_append,
      Reads.cons_iff hclose (Nat.zero_le _) rfl]
    rfl
  constructor
  · rintro ⟨us, s', q, hreads, hfinish⟩
    obtain ⟨us, rfl, hrest⟩ := (h.rest_iff (Nat.zero_le _)).1 hreads
    rw [← List.singleton_append, Reads.lexeme_iff hopen (Nat.zero_le _)] at hrest
    obtain ⟨s₁, us, rfl, hfeed', hbody⟩ := hrest
    cases hfeed.symm.trans hfeed'
    obtain ⟨-, s₂, us, rfl, -, -⟩ :=
      ((Reads.blanks_iff _ (Nat.zero_le _)).1 hbody).rbrace hinit (Nat.zero_le _)
    exact ⟨us, s', q, (htail us s' q).1 hbody, hfinish⟩
  · rintro ⟨us, s', q, hreads, hfinish⟩
    have hrest := (Reads.cons_iff hopen (Nat.zero_le _) hfeed).2 ((htail us s' q).2 hreads)
    exact ⟨_, s', q, (h.rest_iff (Nat.zero_le _)).2 ⟨_, rfl, hrest⟩, hfinish⟩

end

end Grammar

def bodyStart (pre : List Char) : Position :=
  (Position.past .start pre).after '{'

def bodyEdit (pre body : List Char) : Edit :=
  .replace (bodyStart pre) [' '] body

section

variable {pre body post : List Char} {ts : List Token} {s : State} {p : Position} {cs : List Char}
  {place : ResultPlace} {result : Option (Lexeme .arrow × TypeTree)} {l : Lexeme .lbrace}

theorem afterBody_relabel (h : Reads .start .start cs ts s (Position.past .start pre) ('{' :: post))
    (hfeed : s.feed (tokenAt .lbrace (Position.past .start pre) ['{']) =
      some (.bodyOpen place result l)) (body : List Char) :
    (afterBody place result l (Position.past (bodyStart pre) [' '])).relabel
        (bodyEdit pre body).relabelling =
      afterBody place result l (Position.past (bodyStart pre) body) := by
  let p := Position.past .start pre
  let opens := tokenAt .lbrace p ['{']
  have hp : p.Before (bodyStart pre) := p.before_after _
  have hself : (State.bodyOpen place result l).relabel (bodyEdit pre body).relabelling =
      .bodyOpen place result l := by
    have hfeeds : (ts ++ [opens]).foldlM State.feed .start = some (.bodyOpen place result l) := by
      rw [List.foldlM_append, h.feeds]
      change (s.feed opens).bind some = _
      rw [hfeed]
      rfl
    refine State.relabel_eq_self hfeeds rfl fun t ht => ?_
    rcases List.mem_append.1 ht with ht | ht
    · obtain ⟨hstart, hstop⟩ := h.stops.2 t ht
      exact Edit.relabel_eq_self (hstart.trans hp) fun hback => hstop (hp.trans hback)
    · rw [List.mem_singleton.1 ht]
      exact Edit.relabel_eq_self hp fun hback => hback.ne rfl
  have hclose := State.feed_relabel (f := (bodyEdit pre body).relabelling)
    (.bodyOpen place result l)
    (tokenAt .rbrace (Position.past (bodyStart pre) [' ']) ['}'])
  have htoken := (Edit.carries (bodyStart pre) [' '] body).token .rbrace (w := ['}']) (by simp)
  rw [hself, bodyEdit, htoken] at hclose
  exact (Option.some.inj hclose).symm

end

section

variable {pre body post : List Char} {ts : List Token}

theorem enclosed_blank (post : List Char) : Enclosed [' '] post :=
  enclosed_of_plain (forall_mem_of_all (by decide)) (by decide) (by decide) post

theorem enclosed_letter (post : List Char) : Enclosed ['x'] post :=
  enclosed_of_plain (forall_mem_of_all (by decide)) (by decide) (by decide) post

theorem OpensBody.course (h : OpensBody pre post ts) (hcloses : Closes .start pre ts) :
    ∃ s place result l,
      s.feed (tokenAt .lbrace (Position.past .start pre) ['{']) =
          some (.bodyOpen place result l) ∧
        Course '{' ([' '] ++ '}' :: post) s (Position.past .start pre) false none pre .start .start
          ts (signatureFlag false none ts) := by
  obtain ⟨s, p, cs, place, result, l, hreads, hlen, hfeed⟩ := h
  obtain rfl := hreads.place_eq (by simp [hlen])
  rw [mask_eq_maskFrom] at hreads
  exact ⟨s, place, result, l, hfeed,
    hreads.course (Or.inl rfl) (by simp [hlen]) rfl (.start _) hcloses⟩

theorem OpensBody.blanked (h : OpensBody pre post ts) (hcloses : Closes .start pre ts)
    (hflag : signatureFlag false none ts = some true) (hbody : Enclosed body post) :
    Blanked pre body post := by
  obtain ⟨s, place, result, l, -, hcourse⟩ := h.course hcloses
  obtain ⟨w, hw, hmask⟩ :=
    (hcourse.onward (Or.inl rfl) hflag).exists_append (body ++ '}' :: post)
  refine ⟨w, maskFrom false (some '}') post, hw, ?_⟩
  rw [hbody.maskFrom] at hmask
  rw [mask_eq_maskFrom]
  exact hmask

/-- Behind the mask, a text with a body and one with a blank body are read as the same items, up to
the places of their lexemes. -/
theorem read_withBody_iff (h : OpensBody pre post ts) (hcloses : Closes .start pre ts)
    (hflag : signatureFlag false none ts = some true) (hbody : Enclosed body post)
    (items : List ItemTree) :
    Grammar.read (withBody pre body post) = .ok items ↔
      ∃ items', Grammar.read (withBody pre [' '] post) = .ok items' ∧
        items'.map (ItemTree.relabel (bodyEdit pre body).relabelling) = items := by
  obtain ⟨s, place, result, l, hfeed, hcourse⟩ := h.course hcloses
  have honward := hcourse.onward (Or.inl rfl) hflag
  have hblank := enclosed_blank post
  have hstart := honward ([' '] ++ '}' :: post)
  rw [hblank.maskFrom] at hstart
  have hstate := afterBody_relabel hstart hfeed body
  -- Both texts are read alike up to the brace.
  have hread {body : List Char} (hbody : Enclosed body post) (items : List ItemTree) :
      Grammar.read (withBody pre body post) = .ok items ↔
        ∃ us s' q, Reads (afterBody place result l (Position.past (bodyStart pre) body))
          ((Position.past (bodyStart pre) body).after '}') (maskFrom false (some '}') post)
          us s' q [] ∧ s'.finish? = some items := by
    obtain ⟨w, -, hmask⟩ := honward.exists_append (body ++ '}' :: post)
    have hreads := honward (body ++ '}' :: post)
    rw [hmask, hbody.maskFrom] at hreads
    rw [Grammar.read, readMasked_eq_ok_iff, mask_eq_maskFrom, withBody, hmask, hbody.maskFrom]
    exact Reads.withBody_iff hreads hfeed items
  have hcarries := (Edit.carries (bodyStart pre) [' '] body).past ['}']
  rw [hread hbody, ← hstate]
  simp only [hread hblank]
  exact Reads.relabel_iff hcarries items

theorem SourceFile.parse_withBody (h : OpensBody pre post ts) (hcloses : Closes .start pre ts)
    (hflag : signatureFlag false none ts = some true) (hbody : Enclosed body post)
    (file : Option String) (f : SourceFile) :
    SourceFile.parse (String.ofList (withBody pre body post)) file = .ok f ↔
      ∃ f', SourceFile.parse (String.ofList (withBody pre [' '] post)) file = .ok f' ∧
        f'.respan (bodyEdit pre body).moveSpan = f := by
  have hmoves := (bodyEdit pre body).moves file
  simp only [parse_eq_ok_iff, String.toList_ofList, read_withBody_iff h hcloses hflag hbody]
  constructor
  · rintro ⟨_, ⟨items, hread, rfl⟩, htrees⟩
    rw [ofTrees_relabel hmoves] at htrees
    cases hf : ofTrees file items with
    | error e => simp [hf] at htrees
    | ok f' =>
      refine ⟨f', ⟨items, hread, hf⟩, ?_⟩
      simpa [hf] using htrees
  · rintro ⟨f', ⟨items, hread, hf⟩, rfl⟩
    refine ⟨_, ⟨items, hread, rfl⟩, ?_⟩
    rw [ofTrees_relabel hmoves, hf, mapBoth_ok]

theorem maskFrom_letter (prev : Option Char) (rest : List Char) :
    ∃ rest', maskFrom false prev ('{' :: 'x' :: rest) = '{' :: 'x' :: rest' := by
  refine ⟨maskFrom false (some 'x') rest, ?_⟩
  rw [maskFrom, cellsFrom_brace, maskCells_brace_outside, cellsFrom_plain_cons (by decide),
    maskCells_quiet_cons false _ (by decide)]
  rfl

theorem OpensBody.not_blanked (h : OpensBody pre post ts) (hcloses : Closes .start pre ts)
    (hflag : signatureFlag false none ts ≠ some true) : ¬ Blanked pre ['x'] post := by
  rintro ⟨v, rest, hv, hblank⟩
  obtain ⟨s, place, result, l, -, hcourse⟩ := h.course hcloses
  rw [mask_eq_maskFrom] at hblank
  obtain ⟨w, rest', hw, hmask⟩ : ∃ w rest', w.length = pre.length ∧
      maskFrom false none (pre ++ '{' :: 'x' :: '}' :: post) = w ++ '{' :: 'x' :: rest' := by
    match hknown : signatureFlag false none ts, hflag with
    | none, _ =>
      obtain ⟨w, hw, hmask⟩ := hcourse.copied hknown (enclosed_blank post) (enclosed_letter post)
      exact ⟨w, '}' :: post, hw, hmask⟩
    | some false, _ =>
      obtain ⟨w, hw, hmask⟩ :=
        (hcourse.onward (Or.inl rfl) hknown).exists_append ('x' :: '}' :: post)
      obtain ⟨rest', hletter⟩ := maskFrom_letter none ('}' :: post)
      exact ⟨w, rest', hw, by rw [hmask, hletter]⟩
  change maskFrom false none (pre ++ '{' :: 'x' :: '}' :: post) =
    v ++ '{' :: ' ' :: ('}' :: rest) at hblank
  rw [hblank] at hmask
  have htail := (List.append_inj hmask (hv.trans hw.symm)).2
  simp at htail

theorem OpensBody.not_read (h : OpensBody pre post ts) (hcloses : Closes .start pre ts)
    (hflag : signatureFlag false none ts = some false) (items : List ItemTree) :
    Grammar.read (withBody pre ['x'] post) ≠ .ok items := by
  obtain ⟨s, place, result, l, hfeed, hcourse⟩ := h.course hcloses
  have hletter := hcourse.onward (Or.inl rfl) hflag ('x' :: '}' :: post)
  obtain ⟨rest, hrest⟩ := maskFrom_letter none ('}' :: post)
  rw [hrest] at hletter
  intro hread
  rw [Grammar.read, readMasked_eq_ok_iff, mask_eq_maskFrom, withBody, List.singleton_append]
    at hread
  obtain ⟨us, s', q, hend, -⟩ := hread
  obtain ⟨us, rfl, hbrace⟩ := (hletter.rest_iff (Nat.zero_le _)).1 hend
  have hopen : scan s.expects (['{'] ++ 'x' :: rest) = .lexeme .lbrace 1 :=
    State.scan_of_bodyOpen hfeed _
  rw [← List.singleton_append, Reads.lexeme_iff hopen (Nat.zero_le _)] at hbrace
  obtain ⟨s₁, us, rfl, hfeed', hbody⟩ := hbrace
  cases hfeed.symm.trans hfeed'
  have hunknown : scan (State.bodyOpen place result l).expects ('x' :: rest) = .unknown := rfl
  cases hbody with
  | gap hscan _ => cases hunknown.symm.trans hscan
  | lexeme hscan _ _ => cases hunknown.symm.trans hscan

end

namespace Grammar

/-- The tokens of so many pieces of a text, and where they lead. -/
def readPieces : Nat → State → Position → List Char →
    Option (List Token × State × Position × List Char)
  | 0, s, p, cs => some ([], s, p, cs)
  | k + 1, s, p, cs =>
      match scan s.expects cs with
      | .gap n => readPieces k s (Position.past p (cs.take n)) (cs.drop n)
      | .lexeme kind n =>
          let t := tokenAt kind p (cs.take n)
          (s.feed t).bind fun s₁ =>
            (readPieces k s₁ (Position.past p (cs.take n)) (cs.drop n)).map fun r => (t :: r.1, r.2)
      | .unknown => none

theorem reads_of_readPieces {k : Nat} {s s' : State} {p p' : Position} {cs cs' : List Char}
    {ts : List Token} (h : readPieces k s p cs = some (ts, s', p', cs')) :
    Reads s p cs ts s' p' cs' := by
  induction k generalizing s p cs ts with
  | zero =>
    cases h
    exact .done
  | succ k ih =>
    rw [readPieces] at h
    split at h
    · next n hscan => exact .gap hscan (ih h)
    · next kind n hscan =>
      obtain ⟨s₁, hfeed, h⟩ := Option.bind_eq_some_iff.1 h
      obtain ⟨⟨us, r⟩, hrest, hr⟩ := Option.map_eq_some_iff.1 h
      cases hr
      exact .lexeme hscan hfeed (ih hrest)
    · cases h

end Grammar

def bodyTokens? (k : Nat) (pre post : List Char) : Option (List Token) :=
  match readPieces k .start .start (mask (withBody pre [' '] post)) with
  | some (ts, s, p, '{' :: cs) =>
      match s.feed (tokenAt .lbrace p ['{']) with
      | some (.bodyOpen ..) => if cs.length = post.length + 2 then some ts else none
      | _ => none
  | _ => none

theorem opensBody_of_bodyTokens? {k : Nat} {pre post : List Char} {ts : List Token}
    (h : bodyTokens? k pre post = some ts) : OpensBody pre post ts := by
  rw [bodyTokens?] at h
  split at h
  · next us s p cs hpieces =>
    split at h
    · next place result l hfeed =>
      split at h
      · next hlen =>
        cases h
        exact ⟨s, p, cs, place, result, l, reads_of_readPieces hpieces, hlen, hfeed⟩
      · cases h
    · cases h
  · cases h

theorem closes_of_plain {ts : List Token} (h : ts.all (·.kind != .initializer)) (p : Position)
    (u : List Char) : Closes p u ts := by
  intro t ht hkind
  have := List.all_eq_true.1 h t ht
  simp [hkind] at this

theorem exists_of_tokens? {o : Option (List Token)} {P : List Token → Prop}
    (hP : ∀ ts, o = some ts → P ts) {b : Bool}
    (h : o.any fun ts => ts.all (·.kind != .initializer) && signatureFlag false none ts == some b)
    (p : Position) (u : List Char) :
    ∃ ts, P ts ∧ Closes p u ts ∧ signatureFlag false none ts = some b := by
  cases hts : o with
  | none => simp [hts] at h
  | some ts =>
    simp only [hts, Option.any_some, Bool.and_eq_true, beq_iff_eq] at h
    exact ⟨ts, hP ts hts, closes_of_plain h.1 _ _, h.2⟩

theorem exists_of_bodyTokens? {k : Nat} {pre post : List Char} {b : Bool}
    (h : (bodyTokens? k pre post).any (fun ts => ts.all (·.kind != .initializer) &&
      signatureFlag false none ts == some b)) :
    ∃ ts, OpensBody pre post ts ∧ Closes .start pre ts ∧ signatureFlag false none ts = some b :=
  exists_of_tokens? (fun _ => opensBody_of_bodyTokens?) h .start pre

/-- A body is blanked exactly if a signature is under way at its brace. A text with such a body
declares what it declares with a blank one, and without a signature under way the body has to be
blank itself. -/
theorem SourceFile.opaque_iff_signatureFlag {pre post : List Char} {ts : List Token}
    (h : OpensBody pre post ts) (hcloses : Closes .start pre ts) :
    (signatureFlag false none ts = some true ↔
      ∀ body, Enclosed body post → Blanked pre body post) ∧
    (signatureFlag false none ts = some true → ∀ body, Enclosed body post →
      ∀ (file : Option String) (f : SourceFile),
        SourceFile.parse (String.ofList (withBody pre body post)) file = .ok f ↔
          ∃ f', SourceFile.parse (String.ofList (withBody pre [' '] post)) file = .ok f' ∧
            f'.respan (bodyEdit pre body).moveSpan = f) ∧
    (signatureFlag false none ts = some false → ∀ (file : Option String) (f : SourceFile),
      SourceFile.parse (String.ofList (withBody pre ['x'] post)) file ≠ .ok f) := by
  refine ⟨⟨fun hflag body hbody => h.blanked hcloses hflag hbody, fun hblank => ?_⟩,
    fun hflag body hbody => parse_withBody h hcloses hflag hbody, fun hflag file f hparse => ?_⟩
  · by_contra hflag
    exact h.not_blanked hcloses hflag (hblank ['x'] (enclosed_letter post))
  · obtain ⟨items, hread, -⟩ := parse_eq_ok_iff.1 hparse
    rw [String.toList_ofList] at hread
    exact h.not_read hcloses hflag items hread

theorem SourceFile.opaque_of_quoted_braces :
    let pre := "impl A \x7b fn f(x: T) ".toList
    let body := " '\x7d'; /* \x7b */\n".toList
    let post := " const N: u8 = 1; \x7d".toList
    ∃ ts, (OpensBody pre post ts ∧ Closes .start pre ts ∧ signatureFlag false none ts = some true ∧
        Enclosed body post) ∧
      Blanked pre body post ∧ ∀ (file : Option String) (f : SourceFile),
        SourceFile.parse (String.ofList (withBody pre body post)) file = .ok f ↔
          ∃ f', SourceFile.parse (String.ofList (withBody pre [' '] post)) file = .ok f' ∧
            f'.respan (bodyEdit pre body).moveSpan = f := by
  intro pre body post
  obtain ⟨ts, hopens, hcloses, hflag⟩ :
      ∃ ts, OpensBody pre post ts ∧ Closes .start pre ts ∧
        signatureFlag false none ts = some true :=
    exists_of_bodyTokens? (k := 16) (by decide +kernel)
  have hbody : Enclosed body post :=
    ⟨(cellsFrom 0 (some '{') body), by decide +kernel⟩
  obtain ⟨hblank, hparse, -⟩ := SourceFile.opaque_iff_signatureFlag hopens hcloses
  exact ⟨ts, ⟨hopens, hcloses, hflag, hbody⟩, hblank.1 hflag body hbody, hparse hflag body hbody⟩

/-- The semicolon of an array type ends the signature, and the body stays. -/
theorem SourceFile.not_opaque_of_array :
    let pre := "fn f(x: [u8; 2]) ".toList
    ∃ ts, OpensBody pre [] ts ∧ Enclosed ['x'] [] ∧
      (∃ f, SourceFile.parse (String.ofList (withBody pre [' '] [])) = .ok f) ∧
      ¬ Blanked pre ['x'] [] ∧
      ∀ f, SourceFile.parse (String.ofList (withBody pre ['x'] [])) ≠ .ok f := by
  intro pre
  obtain ⟨ts, hopens, hcloses, hflag⟩ :
      ∃ ts, OpensBody pre [] ts ∧ Closes .start pre ts ∧ signatureFlag false none ts = some false :=
    exists_of_bodyTokens? (k := 15) (by decide +kernel)
  refine ⟨ts, hopens, enclosed_letter [], ?_, hopens.not_blanked hcloses (by simp [hflag]), ?_⟩
  · have hparse : (SourceFile.parse (String.ofList (withBody pre [' '] []))).toOption.isSome := by
      decide +kernel
    cases h : SourceFile.parse (String.ofList (withBody pre [' '] [])) with
    | error e => simp [h, Except.toOption] at hparse
    | ok f => exact ⟨f, rfl⟩
  · intro f hparse
    obtain ⟨items, hread, -⟩ := SourceFile.parse_eq_ok_iff.1 hparse
    rw [String.toList_ofList] at hread
    exact hopens.not_read hcloses hflag items hread

end NativeBinding
