import NativeBinding.Proofs.Decl.Extents
import NativeBinding.Proofs.Decl.Opaque

/-!
Initializers. The reader takes what stands before the first semicolon for the initializer of a
constant, unless white space that no gap has, or a comment, stands at its head. Where it takes an
initializer whole, only the value of the constant depends on it, and what follows moves with its
end. Where it does not, no constant has that value.
-/

namespace NativeBinding

open Grammar Body Text

/-- A text with an initializer, which white space parts from the equals sign. -/
def withInitializer (pre x v post : List Char) : List Char :=
  pre ++ '=' :: (x ++ (v ++ ';' :: post))

/-- Behind the mask, a text is read up to the equals sign of a constant, where the initializer is
`0`. -/
structure OpensInitializer (pre x post : List Char) (ts : List Token) : Prop where
  blank : ∀ c ∈ x, isGapSpace c
  reads : ∃ s p cs place colon type eq,
    Reads .start .start (mask (withInitializer pre x ['0'] post)) ts s p ('=' :: cs) ∧
      cs.length = x.length + (post.length + 2) ∧
      s.feed (tokenAt .equals p ['=']) = some (.constEquals place colon type eq)

def initializerStart (pre x : List Char) : Position :=
  Position.past ((Position.past .start pre).after '=') x

structure Uncut (v : List Char) : Prop where
  semicolon : ';' ∉ v
  head : ∃ c w, v = c :: w ∧ isBlank c = false
  comment : ¬ ['/', '*'] <+: v

namespace Grammar

theorem State.scan_of_constEquals {s : State} {l eq : Lexeme .equals} {place : ConstPlace}
    {colon : Lexeme .colon} {type : TypeTree}
    (h : s.feed ⟨.equals, l⟩ = some (.constEquals place colon type eq)) (cs : List Char) :
    scan s.expects ('=' :: cs) = .lexeme .equals 1 := by
  cases s with
  | visibility scope attrs v => obtain ⟨word, _ | restriction⟩ := v <;> cases h
  | route place r => cases place <;> cases h
  | pattern place p => cases place <;> cases h
  | path front segment place => cases segment <;> rfl
  | _ => first | rfl | cases h

end Grammar

section

variable {v rest : List Char}

theorem Grammar.blockComment_of_not_starts (h : ¬ ['/', '*'] <+: v) :
    Gap.blockComment.length v = none :=
  Kind.length_eq_none_of_opening (k := .gap .blockComment) fun hpre =>
    h (List.isPrefixOf_iff_prefix.1 hpre)

theorem Uncut.solid (h : Uncut v) : ∀ c ∈ v.head?, isGapSpace c = false := by
  obtain ⟨c, w, rfl, hc⟩ := h.head
  rintro d ⟨⟩
  by_contra hgap
  rw [isBlank_of_isGapSpace (by simpa using hgap)] at hc
  cases hc

theorem Uncut.scan_source (h : Uncut v) (rest : List Char) :
    scan [.initializer] (v ++ ';' :: rest) = .lexeme .initializer v.length := by
  have hsolid := h.solid
  obtain ⟨hsemi, ⟨c, w, rfl, hc⟩, hcomment⟩ := h
  have hblock : ¬ ['/', '*'] <+: c :: w ++ ';' :: rest := by
    cases w with
    | nil => simp
    | cons d w => simpa using hcomment
  have hspace : Gap.space.length (c :: w ++ ';' :: rest) = none := by
    rw [List.cons_append, Gap.length]
    · simp [hsolid c rfl]
  refine scan_initializer_eq_lexeme_iff.2 ⟨blockComment_of_not_starts hblock, hspace, ?_⟩
  exact initializerLength_append (fun hc => hsemi (by simp [hc])) hc
    (fun hw => hsemi (List.mem_cons_of_mem c hw)) (.inr ⟨rest, rfl⟩)

theorem Uncut.scan_mask (h : Uncut v) (hv : Complete v) (b : Bool) (rest : List Char) :
    scan [.initializer] (maskFrom b none v ++ ';' :: maskFrom false (some ';') rest) =
      .lexeme .initializer (maskFrom b none v).length := by
  have hscan := scan_initializer_eq_lexeme_iff.1 (h.scan_source rest)
  have hcomplete : Complete ((v ++ ';' :: rest).take v.length) := by rwa [List.take_left]
  have hprev : (none : Option Char).any isWord = false := rfl
  have halike {k : Gap} : k.length (maskFrom b none (v ++ ';' :: rest)) =
      k.length (v ++ ';' :: rest) := (Gap.length_alike (alike_maskFrom b none _) k).symm
  rw [← maskFrom_complete hv b hprev, scan_initializer_eq_lexeme_iff, halike, halike,
    length_maskFrom]
  exact ⟨hscan.1, hscan.2.1, initializerLength_mask hscan.2.2 hcomplete hprev b⟩

end

section

variable {pre x v post : List Char} {ts : List Token} {b : Bool}

theorem OpensInitializer.approach (h : OpensInitializer pre x post ts)
    (hcloses : Closes .start pre ts) (hflag : signatureFlag false none ts = some b) :
    ∃ place colon type eq, ∀ v, Complete v → (∀ c ∈ v.head?, isGapSpace c = false) →
      Reads .start .start (mask (withInitializer pre x v post))
        (ts ++ [tokenAt .equals (Position.past .start pre) ['=']])
        (.constEquals place colon type eq) (initializerStart pre x)
        (maskFrom b none v ++ ';' :: maskFrom false (some ';') post) := by
  obtain ⟨hx, s, p, cs, place, colon, type, eq, hreads, hlen, hfeed⟩ := h
  obtain rfl := hreads.place_eq (by simp [hlen])
  rw [mask_eq_maskFrom] at hreads
  have hcourse := hreads.course (Or.inr rfl) (by simp [hlen]) rfl (.start _) hcloses
  have honward := hcourse.onward (Or.inr rfl) hflag
  refine ⟨place, colon, type, eq, fun v hv hhead => ?_⟩
  have hread := honward (x ++ (v ++ ';' :: post))
  rw [maskFrom_equals] at hread
  have hprev : (lastOf (some '=') x).any isWord = false := lastOf_spaces hx (by decide)
  rw [(neutral_spaces hx).maskFrom, maskFrom_complete hv b hprev] at hread
  have hsolid : ∀ c ∈ (maskFrom b none v ++ ';' :: maskFrom false (some ';') post).head?,
      isGapSpace c = false := by
    rw [← maskFrom_complete hv b hprev, ← (agree_maskFrom b _ _).head?_eq]
    cases v with
    | nil => simp [isGapSpace]
    | cons c v => exact hhead
  generalize maskFrom b none v ++ ';' :: maskFrom false (some ';') post = rest at hread hsolid ⊢
  have hequals : scan s.expects (['='] ++ (x ++ rest)) = .lexeme .equals 1 :=
    State.scan_of_constEquals hfeed _
  have hgap : Reads (.constEquals place colon type eq) ((Position.past .start pre).after '=')
      (x ++ rest) [] (.constEquals place colon type eq) (initializerStart pre x) rest := by
    cases x with
    | nil => exact .done
    | cons c x =>
      have hscan := scan_spaces (State.constEquals place colon type eq).expects
        (hx c List.mem_cons_self) (x ++ rest)
      rw [← List.cons_append, length_takeWhile_append_iff.2 ⟨hx, hsolid⟩] at hscan
      exact (Reads.gap_iff hscan (Nat.le_refl _)).2 .done
  rw [mask_eq_maskFrom, withInitializer]
  exact hread.trans ((Reads.next hequals hfeed).trans hgap)

end

instance (p q : Position) : Decidable (p.UpTo q) :=
  inferInstanceAs (Decidable (_ ∨ _))

/-- Where a place moves when the initializer at `q` becomes `v` instead of `0`. -/
def Position.behind (q : Position) (v : List Char) (p : Position) : Position :=
  if p.UpTo q then p else .shift (q.after '0') (Position.past q v) p

theorem Position.behind_of_before {q p : Position} (h : q.Before p) (v : List Char) :
    behind q v p = shift (q.after '0') (Position.past q v) p :=
  if_neg fun hup => (h.trans_upTo hup).ne rfl

def Span.behind (q : Position) (v : List Char) (s : Span) : Span :=
  match s.line, s.column, s.endLine, s.endColumn with
  | some line, some column, some endLine, some endColumn =>
      .between s.file (.behind q v ⟨line.toNat, column.toNat⟩)
        (.behind q v ⟨endLine.toNat, endColumn.toNat⟩)
  | _, _, _, _ => s

namespace Grammar

def replaceInitializer (q : Position) (v w : List Char) : Relabelling := fun kind l =>
  ⟨if kind = .initializer ∧ l.start = q then String.ofList w else l.text,
    .behind q v l.start, .behind q v l.stop⟩

theorem replaceInitializer_displaces (q : Position) (v w : List Char) (file : Option String) :
    (replaceInitializer q v w).Displaces file (Span.behind q v) where
  text hkind _ := if_neg fun h => hkind h.1
  between _ _ := rfl
  unknown := rfl

section

variable {q : Position} {v w : List Char}

theorem replaceInitializer_before {t : Token} (hlong : t.start.Before t.stop)
    (hstop : t.stop.UpTo q) : t.relabel (replaceInitializer q v w) = t := by
  have hstart : t.start.Before q := hlong.trans_upTo hstop
  have htext : (if t.kind = .initializer ∧ t.start = q then String.ofList w else t.text) = t.text :=
    if_neg fun h => hstart.ne h.2
  have hstart' : Position.behind q v t.start = t.start := if_pos hstart.upTo
  have hstop' : Position.behind q v t.stop = t.stop := if_pos hstop
  change Token.mk t.kind ⟨if t.kind = .initializer ∧ t.start = q then String.ofList w else t.text,
    .behind q v t.start, .behind q v t.stop⟩ = t
  rw [htext, hstart', hstop']
  rfl

theorem replaceInitializer_token (hpast : Position.past q w = Position.past q v) :
    (tokenAt .initializer q ['0']).relabel (replaceInitializer q v w) =
      tokenAt .initializer q w := by
  have htext : (if Terminal.initializer = .initializer ∧ q = q then String.ofList w else
      String.ofList ['0']) = String.ofList w := if_pos ⟨rfl, rfl⟩
  have hstart : Position.behind q v q = q := if_pos (.refl q)
  have hstop : Position.behind q v (q.after '0') = Position.past q w := by
    rw [Position.behind_of_before (q.before_after '0'), Position.shift_self, hpast]
  change Token.mk .initializer ⟨if Terminal.initializer = .initializer ∧ q = q then
    String.ofList w else String.ofList ['0'], .behind q v q, .behind q v (q.after '0')⟩ = _
  rw [htext, hstart, hstop]
  rfl

theorem replaceInitializer_carries (q : Position) (v w : List Char) :
    (replaceInitializer q v w).Carries (q.after '0') (Position.past q v) := by
  have hbefore (u : List Char) : q.Before (Position.past (q.after '0') u) :=
    (q.before_after '0').trans_upTo (upTo_past _ u)
  have hmoved (u : List Char) : Position.behind q v (Position.past (q.after '0') u) =
      Position.past (Position.past q v) u := by
    rw [Position.behind_of_before (hbefore u), Position.shift_past fun h => h.ne rfl,
      Position.shift_self]
  intro kind u y _
  let p := Position.past (q.after '0') u
  have htext : (if kind = .initializer ∧ p = q then String.ofList w else String.ofList y) =
      String.ofList y := if_neg fun h => (hbefore u).ne h.2.symm
  have hstop := hmoved (u ++ y)
  rw [past_append, past_append] at hstop
  change Token.mk kind ⟨if kind = .initializer ∧ p = q then String.ofList w else String.ofList y,
    .behind q v p, .behind q v (Position.past p y)⟩ = _
  rw [htext, hmoved, hstop]
  rfl

end

end Grammar

theorem uncut_zero : Uncut ['0'] :=
  ⟨by decide, ⟨'0', [], rfl, by decide⟩, by decide⟩

theorem complete_zero : Complete ['0'] :=
  complete_of_plain (forall_mem_of_all (by decide)) (by decide) (by decide)

theorem maskFrom_zero (b : Bool) : maskFrom b none ['0'] = ['0'] := by
  cases b <;> decide

namespace Grammar

def afterInitializer (place : ConstPlace) (colon : Lexeme .colon) (type : TypeTree)
    (eq : Lexeme .equals) (q : Position) (w : List Char) : State :=
  .constValue place colon type eq ⟨String.ofList w, q, Position.past q w⟩

section

variable {place : ConstPlace} {colon : Lexeme .colon} {type : TypeTree} {eq : Lexeme .equals}
  {q : Position} {cs v w rest : List Char} {ts : List Token}

theorem Reads.withInitializer_iff
    (h : Reads .start .start cs ts (.constEquals place colon type eq) q (w ++ rest))
    (hscan : scan [.initializer] (w ++ rest) = .lexeme .initializer w.length)
    (items : List ItemTree) :
    (∃ us s q', Reads .start .start cs us s q' [] ∧ s.finish? = some items) ↔
      ∃ us s q', Reads (afterInitializer place colon type eq q w) (Position.past q w) rest us s q'
        [] ∧ s.finish? = some items := by
  have hscan : scan (State.constEquals place colon type eq).expects (w ++ rest) =
      .lexeme .initializer w.length := hscan
  constructor
  · rintro ⟨us, s, q', hend, hfinish⟩
    obtain ⟨us, rfl, hrest⟩ := (h.rest_iff (Nat.zero_le _)).1 hend
    obtain ⟨s₁, us, rfl, hfeed, hrest⟩ := (Reads.lexeme_iff hscan (Nat.zero_le _)).1 hrest
    cases hfeed
    exact ⟨us, s, q', hrest, hfinish⟩
  · rintro ⟨us, s, q', hrest, hfinish⟩
    have hrest := (Reads.cons_iff hscan (Nat.zero_le _) rfl).2 hrest
    exact ⟨_, s, q', (h.rest_iff (Nat.zero_le _)).2 ⟨_, rfl, hrest⟩, hfinish⟩

theorem afterInitializer_relabel
    (h : Reads .start .start cs ts (.constEquals place colon type eq) q rest)
    (hpast : Position.past q w = Position.past q v) :
    (afterInitializer place colon type eq q ['0']).relabel (replaceInitializer q v w) =
      afterInitializer place colon type eq q w := by
  have hself : (State.constEquals place colon type eq).relabel (replaceInitializer q v w) =
      .constEquals place colon type eq :=
    State.relabel_eq_self h.feeds rfl fun t ht =>
      replaceInitializer_before (h.inOrder.2.long t ht) (.of_not_before (h.stops.2 t ht).2)
  have hfeed := State.feed_relabel (f := replaceInitializer q v w)
    (.constEquals place colon type eq) (tokenAt .initializer q ['0'])
  rw [hself, replaceInitializer_token hpast] at hfeed
  exact (Option.some.inj hfeed).symm

end

end Grammar

section

variable {pre x v post : List Char} {ts : List Token} {b : Bool}

/-- Behind the mask, a text with an initializer that is taken whole and one with `0` are read as the
same items, up to the initializer and the places behind it. -/
theorem read_withInitializer_iff (h : OpensInitializer pre x post ts)
    (hcloses : Closes .start pre ts) (hflag : signatureFlag false none ts = some b)
    (hv : Complete v) (hcut : Uncut v) (items : List ItemTree) :
    Grammar.read (withInitializer pre x v post) = .ok items ↔
      ∃ items', Grammar.read (withInitializer pre x ['0'] post) = .ok items' ∧
        items'.map (ItemTree.relabel
          (replaceInitializer (initializerStart pre x) v (maskFrom b none v))) = items := by
  obtain ⟨place, colon, type, eq, happroach⟩ := h.approach hcloses hflag
  let q := initializerStart pre x
  -- Both texts are read alike up to the initializer.
  have hread {v : List Char} (hv : Complete v) (hcut : Uncut v) (items : List ItemTree) :
      Grammar.read (withInitializer pre x v post) = .ok items ↔
        ∃ us s q', Reads (afterInitializer place colon type eq q (maskFrom b none v))
          (Position.past q v) (';' :: maskFrom false (some ';') post) us s q' [] ∧
            s.finish? = some items := by
    rw [Grammar.read, readMasked_eq_ok_iff, ← past_maskFrom q b none]
    exact (happroach v hv hcut.solid).withInitializer_iff (hcut.scan_mask hv b post) items
  have hstate := afterInitializer_relabel (happroach ['0'] complete_zero uncut_zero.solid)
    (past_maskFrom q b none v)
  have hzero := hread complete_zero uncut_zero
  rw [maskFrom_zero] at hzero
  rw [hread hv hcut, ← hstate]
  simp only [hzero]
  exact Reads.relabel_iff (replaceInitializer_carries q v _) items

end

def ConstDecl.revalue (q : Position) (value : String) (d : ConstDecl) : ConstDecl :=
  if d.span.holds q then { d with value } else d

def SourceFile.revalue (q : Position) (value : String) : SourceFile → SourceFile :=
  mapConst (ConstDecl.revalue q value)

section

variable {ts : List Token} {c : ConstTree} {file : Option String}

theorem Grammar.ConstTree.holds_iff (h : InOrder ts) (hc : c.tokens <:+: ts)
    {l : Lexeme .initializer} (hl : ⟨.initializer, l⟩ ∈ ts) :
    (spanOf file c.tokens).holds l.start = true ↔ c.value.start = l.start := by
  have hne := c.tokens_ne_nil
  have hin := h.sublist hc.sublist
  have hcovers : (spanOf file c.tokens).Covers _ _ := covers_spanOf hin hne
  rw [hcovers.1, Span.holds_between]
  constructor
  · rintro ⟨hstart, hstop⟩
    obtain ⟨as, bs, rfl⟩ := hc
    have hlong := h.long _ hl
    obtain ⟨hfront, -, hback⟩ := List.pairwise_append.1 h.apart
    have hmem : ⟨.initializer, l⟩ ∈ c.tokens := by
      rcases List.mem_append.1 hl with hl | hl
      · rcases List.mem_append.1 hl with hl | hl
        · have hup := (List.pairwise_append.1 hfront).2.2 _ hl _ (List.head_mem hne)
          exact absurd rfl ((hlong.trans_upTo hup).trans_upTo hstart).ne
        · exact hl
      · have hup := hback _ (List.mem_append_right as (List.getLast_mem hne)) _ hl
        exact absurd rfl (hstop.trans_upTo hup).ne
    rw [ConstTree.eq_value hmem]
  · intro hvalue
    have hmem : ⟨.initializer, c.value⟩ ∈ c.tokens := by simp [ConstTree.tokens, Lexeme.token]
    rw [← hvalue]
    exact ⟨hin.head_upTo hne hmem, (hin.long _ hmem).trans_upTo (hin.upTo_last hne hmem)⟩

end

section

variable {pre x v post : List Char} {ts : List Token} {b : Bool} {items : List ItemTree}

theorem OpensInitializer.mem_tokens (h : OpensInitializer pre x post ts)
    (hcloses : Closes .start pre ts) (hflag : signatureFlag false none ts = some b)
    (hread : Grammar.read (withInitializer pre x ['0'] post) = .ok items) :
    InOrder (items.flatMap ItemTree.tokens) ∧
      tokenAt .initializer (initializerStart pre x) ['0'] ∈ items.flatMap ItemTree.tokens := by
  obtain ⟨place, colon, type, eq, happroach⟩ := h.approach hcloses hflag
  obtain ⟨us, s', q', hend, hfinish⟩ := readMasked_eq_ok_iff.1 hread
  have hreads := happroach ['0'] complete_zero uncut_zero.solid
  have hscan : scan (State.constEquals place colon type eq).expects
      (maskFrom b none ['0'] ++ ';' :: maskFrom false (some ';') post) =
        .lexeme .initializer (maskFrom b none ['0']).length :=
    uncut_zero.scan_mask complete_zero b post
  obtain ⟨us', rfl, hrest⟩ := (hreads.rest_iff (Nat.zero_le _)).1 hend
  obtain ⟨s₁, us', rfl, -, -⟩ := (Reads.lexeme_iff hscan (Nat.zero_le _)).1 hrest
  rw [hend.items_tokens hfinish, maskFrom_zero]
  exact ⟨hend.inOrder.2, by simp⟩

theorem OpensInitializer.becomes (h : OpensInitializer pre x post ts)
    (hcloses : Closes .start pre ts) (hflag : signatureFlag false none ts = some b)
    (hread : Grammar.read (withInitializer pre x ['0'] post) = .ok items) (file : Option String)
    (v w : List Char) {t : ItemTree} (ht : t ∈ items) {block : Option BlockTree}
    {attrs : List AttrTree} {c : ConstTree} (hc : (block, attrs, .const c) ∈ t.members) :
    c.Becomes (replaceInitializer (initializerStart pre x) v w) file
      (Span.behind (initializerStart pre x) v)
      (ConstDecl.revalue (initializerStart pre x) (.ofList (strip w))) := by
  obtain ⟨horder, hmem⟩ := h.mem_tokens hcloses hflag hread
  have hholds : (spanOf file c.tokens).holds (initializerStart pre x) = true ↔
      c.value.start = initializerStart pre x :=
    c.holds_iff horder (ItemTree.infix_of_member ht hc) hmem
  intro block' attrs'
  by_cases hstart : c.value.start = initializerStart pre x
  · have hrevalue : (ConstDecl.ofTree file block' attrs' c).revalue (initializerStart pre x)
        (.ofList (strip w)) = { ConstDecl.ofTree file block' attrs' c with
          value := .ofList (strip w) } := if_pos (hholds.2 hstart)
    have htext : (replaceInitializer (initializerStart pre x) v w _ c.value).text = .ofList w :=
      if_pos ⟨rfl, hstart⟩
    rw [hrevalue, htext, String.toList_ofList]
    rfl
  · have hrevalue : (ConstDecl.ofTree file block' attrs' c).revalue (initializerStart pre x)
        (.ofList (strip w)) = ConstDecl.ofTree file block' attrs' c :=
      if_neg fun hheld => hstart (hholds.1 hheld)
    have htext : (replaceInitializer (initializerStart pre x) v w _ c.value).text = c.value.text :=
      if_neg fun heq => hstart heq.2
    rw [hrevalue, htext]
    rfl

/-- A text with an initializer that is taken whole declares what it declares with `0`, but for the
value of the constant and the places behind it. -/
theorem SourceFile.parse_withInitializer (h : OpensInitializer pre x post ts)
    (hcloses : Closes .start pre ts) (hflag : signatureFlag false none ts = some b)
    (hv : Complete v) (hcut : Uncut v) (file : Option String) (f : SourceFile) :
    SourceFile.parse (String.ofList (withInitializer pre x v post)) file = .ok f ↔
      ∃ f₀, SourceFile.parse (String.ofList (withInitializer pre x ['0'] post)) file = .ok f₀ ∧
        (f₀.revalue (initializerStart pre x) (.ofList (strip (maskFrom b none v)))).respan
          (Span.behind (initializerStart pre x) v) = f := by
  let q := initializerStart pre x
  have htrees {items : List ItemTree}
      (hread : Grammar.read (withInitializer pre x ['0'] post) = .ok items) :=
    ofTrees_mapConst (replaceInitializer_displaces q v (maskFrom b none v) file)
      fun t ht _ _ _ hc => h.becomes hcloses hflag hread file v (maskFrom b none v) ht hc
  simp only [parse_eq_ok_iff, String.toList_ofList,
    read_withInitializer_iff h hcloses hflag hv hcut]
  constructor
  · rintro ⟨_, ⟨items, hread, rfl⟩, hof⟩
    rw [htrees hread] at hof
    cases hf : ofTrees file items with
    | error e => simp [hf] at hof
    | ok f₀ =>
      rw [hf, mapBoth_ok] at hof
      exact ⟨f₀, ⟨items, hread, hf⟩, Except.ok.inj hof⟩
  · rintro ⟨f₀, ⟨items, hread, hf⟩, rfl⟩
    refine ⟨_, ⟨items, hread, rfl⟩, ?_⟩
    rw [htrees hread, hf, mapBoth_ok]
    rfl

end

theorem Grammar.ItemTree.exists_const {t : ItemTree} {l : Lexeme .initializer}
    (h : ⟨.initializer, l⟩ ∈ t.tokens) :
    ∃ block attrs c, (block, attrs, .const c) ∈ t.members ∧ c.value = l := by
  have hattrs (as : List AttrTree) : ⟨.initializer, l⟩ ∉ as.flatMap AttrTree.tokens :=
    (inline_flatMap AttrTree.inline as).not_mem
  have hmember {m : MemberBody} (hm : ⟨.initializer, l⟩ ∈ m.tokens) :
      ∃ c : ConstTree, m = .const c ∧ c.value = l := by
    cases m with
    | fn f => exact absurd hm f.not_mem
    | const c => exact ⟨c, rfl, (ConstTree.eq_value hm).symm⟩
  have hbody := (List.mem_append.1 h).resolve_left (hattrs t.attrs)
  cases hcase : t.body with
  | member m =>
    rw [hcase] at hbody
    obtain ⟨c, rfl, hc⟩ := hmember hbody
    exact ⟨none, t.attrs, c, by simp [ItemTree.members, hcase], hc⟩
  | block b =>
    rw [hcase, ItemBody.tokens, b.tokens_eq] at hbody
    have hin : ⟨.initializer, l⟩ ∈ b.members.flatMap MemberTree.tokens := by
      simpa [b.inline_heading.not_mem, Lexeme.token] using hbody
    obtain ⟨m, hm, hin⟩ := List.mem_flatMap.1 hin
    obtain ⟨c, hc, hvalue⟩ := hmember ((List.mem_append.1 hin).resolve_left (hattrs m.attrs))
    refine ⟨some b, m.attrs, c, ?_, hvalue⟩
    simp only [ItemTree.members, hcase]
    exact List.mem_map.2 ⟨m, hm, by rw [hc]⟩

theorem SourceFile.value_of_parse {text : String} {file : Option String} {f : SourceFile}
    (h : SourceFile.parse text file = .ok f) {d : ConstDecl} (hd : .const d ∈ f.declarations) :
    ∃ u rest, d.value = .ofList (strip u) ∧
      scan [.initializer] (u ++ rest) = .lexeme .initializer u.length := by
  obtain ⟨ts, s, p, items, hreads, -, htokens, hitems⟩ := exists_reads_of_parse h
  obtain ⟨t, ht, block, attrs, m, hm, hof⟩ := exists_member hitems hd
  obtain ⟨as, -, hof⟩ := bind_eq_ok_iff.1 hof
  cases m with
  | fn tree =>
    obtain ⟨d', -, hof⟩ := bind_eq_ok_iff.1 hof
    cases hof
  | const c =>
    cases hof
    have hmem : ⟨.initializer, c.value⟩ ∈ ts := by
      rw [← htokens]
      refine List.mem_flatMap.2 ⟨t, ht, (ItemTree.tokens_of_member hm).subset ?_⟩
      simp [MemberBody.tokens, ConstTree.tokens, Lexeme.token]
    obtain ⟨s₁, cs, n, hscan, htext⟩ := hreads.exists_scan hmem
    have hn := (scan_lexeme_bound hscan).2
    obtain ⟨place, colon, type, eq, rfl⟩ :=
      State.constEquals_of_expects (scan_lexeme_kind hscan).1
    refine ⟨cs.take n, cs.drop n, ?_, ?_⟩
    · rw [← htext]
      rfl
    · rw [List.take_append_drop, List.length_take_of_le hn]
      exact hscan

section

variable {pre x v post : List Char} {ts : List Token} {b : Bool} {file : Option String}
  {f : SourceFile}

theorem OpensInitializer.exists_const (h : OpensInitializer pre x post ts)
    (hcloses : Closes .start pre ts) (hflag : signatureFlag false none ts = some b)
    (hparse : SourceFile.parse (String.ofList (withInitializer pre x ['0'] post)) file = .ok f) :
    ∃ d, .const d ∈ f.declarations ∧ d.span.holds (initializerStart pre x) := by
  obtain ⟨items, hread, htrees⟩ := SourceFile.parse_eq_ok_iff.1 hparse
  rw [String.toList_ofList] at hread
  obtain ⟨horder, hmem⟩ := h.mem_tokens hcloses hflag hread
  obtain ⟨t, ht, hin⟩ := List.mem_flatMap.1 hmem
  obtain ⟨block, attrs, c, hc, hvalue⟩ := ItemTree.exists_const hin
  have hheld : (spanOf file c.tokens).holds (initializerStart pre x) = true :=
    (c.holds_iff horder (ItemTree.infix_of_member ht hc) hmem).2 (congrArg Lexeme.start hvalue)
  obtain ⟨d, hd, hof⟩ :=
    SourceFile.exists_declaration (SourceFile.ofTrees_eq_ok_iff.1 htrees).1 ht hc
  obtain ⟨as, -, hof⟩ := bind_eq_ok_iff.1 hof
  cases hof
  exact ⟨_, hd, hheld⟩

theorem Grammar.scan_blank {c : Char} (hblank : isBlank c) (hsolid : isGapSpace c = false)
    (cs : List Char) : scan [.initializer] (c :: cs) = .unknown := by
  have hslash : c ≠ '/' := by
    rintro rfl
    cases hblank
  have hgap (k : Gap) : k.length (c :: cs) = none := by
    refine Option.eq_none_iff_forall_ne_some.2 fun n hn => ?_
    rcases Gap.starts hn with hc | hc
    · exact hslash hc
    · rw [hsolid] at hc
      cases hc
  have hinit : initializerLength (c :: cs) = none := by simp [initializerLength, hblank]
  rw [scan_initializer, hgap, hgap, hinit, hgap]

theorem Grammar.exists_comment {v : List Char} (hv : Complete v) (h : ['/', '*'] <+: v) :
    ∃ g y, v = g ++ y ∧ g.head? = some '/' ∧ g.getLast? = some '/' ∧
      ∀ rest, Gap.blockComment.length (g ++ rest) = some g.length := by
  obtain ⟨w, rfl⟩ := h
  have hregion : inertLength none ('/' :: '*' :: w ++ [';']) =
      some (2 + throughMark ['*', '/'] (w ++ [';'])) := rfl
  have hle := (exists_of_region hregion (hv.ends [])).1
  have hlen := congrArg List.length (cells_char ('/' :: '*' :: w))
  rw [List.length_map] at hlen
  rw [throughMark_eq, List.cons_append, List.cons_append, List.nil_append, hlen] at hle
  cases hrest : commentRest (w ++ [';']) with
  | none =>
    simp only [hrest, Option.getD_none, List.length_append, List.length_cons,
      List.length_nil] at hle
    omega
  | some n =>
    have hn : n ≤ w.length := by
      simp only [hrest, Option.getD_some, List.length_cons] at hle
      omega
    have hlast := commentRest_last hrest
    rw [List.take_append_of_le_length hn] at hlast
    refine ⟨'/' :: '*' :: w.take n, w.drop n, by simp, rfl, ?_, ?_⟩
    · cases htake : w.take n with
      | nil =>
        rw [htake] at hlast
        cases hlast
      | cons c g => rwa [List.getLast?_cons_cons, List.getLast?_cons_cons, ← htake]
    · have hcomment : Gap.blockComment.length
          ('/' :: '*' :: w.take n ++ (w.drop n ++ [';'])) =
            some ('/' :: '*' :: w.take n).length := by
        rw [List.cons_append, List.cons_append, ← List.append_assoc, List.take_append_drop,
          Gap.length, hrest, List.length_cons, List.length_cons, List.length_take_of_le hn]
        rfl
      exact blockComment_append hcomment

theorem OpensInitializer.head_of_parse (h : OpensInitializer pre x post ts)
    (hcloses : Closes .start pre ts) (hflag : signatureFlag false none ts = some b)
    (hv : Complete v) (hsolid : ∀ c ∈ v.head?, isGapSpace c = false)
    (hparse : SourceFile.parse (String.ofList (withInitializer pre x v post)) file = .ok f) :
    ∀ c ∈ v.head?, isBlank c = false := by
  obtain ⟨place, colon, type, eq, happroach⟩ := h.approach hcloses hflag
  obtain ⟨items, hread, -⟩ := SourceFile.parse_eq_ok_iff.1 hparse
  rw [String.toList_ofList] at hread
  obtain ⟨us, s', q', hend, -⟩ := readMasked_eq_ok_iff.1 hread
  obtain ⟨us, -, hrest⟩ := ((happroach v hv hsolid).rest_iff (Nat.zero_le _)).1 hend
  intro c hc
  by_contra hblank
  obtain ⟨w, rfl⟩ := List.head?_eq_some_iff.1 hc
  have hprev : (none : Option Char).any isWord = false := rfl
  rw [← maskFrom_complete hv b hprev] at hrest
  obtain ⟨w', hw'⟩ : ∃ w', maskFrom b none (c :: w ++ ';' :: post) = c :: w' := by
    refine List.head?_eq_some_iff.1 ?_
    rw [← (agree_maskFrom b none _).head?_eq]
    rfl
  have hscan : scan (State.constEquals place colon type eq).expects (c :: w') = .unknown :=
    scan_blank (by simpa using hblank) (hsolid c rfl) w'
  rw [hw'] at hrest
  cases hrest with
  | gap hgap _ => cases hscan.symm.trans hgap
  | lexeme hlexeme _ _ => cases hscan.symm.trans hlexeme

theorem OpensInitializer.uncut_of_parse (h : OpensInitializer pre x post ts)
    (hcloses : Closes .start pre ts) (hflag : signatureFlag false none ts = some b)
    (hv : Complete v) (hne : v ≠ []) (hsolid : ∀ c ∈ v.head?, isGapSpace c = false)
    (hparse : SourceFile.parse (String.ofList (withInitializer pre x v post)) file = .ok f)
    {d : ConstDecl} (hd : .const d ∈ f.declarations) (hvalue : d.value = .ofList (strip v)) :
    Uncut v := by
  have hhead := h.head_of_parse hcloses hflag hv hsolid hparse
  obtain ⟨u, rest, hu, hscan⟩ := SourceFile.value_of_parse hparse hd
  obtain ⟨hblock, -, hlength⟩ := scan_initializer_eq_lexeme_iff.1 hscan
  obtain ⟨⟨c, w, htake, hc, hblank, hw⟩, -⟩ := initializerLength_spec hlength
  rw [List.take_left] at htake
  subst htake
  have hstrip : strip v = strip (c :: w) := by
    rw [hvalue] at hu
    simpa using congrArg String.toList hu
  -- Between characters that are not blank, nothing of `v` is lost.
  have hkept {g y : List Char} (hg : v = g ++ y) (hgne : g ≠ [])
      (hlast : ∀ c ∈ g.getLast?, isBlank c = false) : g <+: c :: w := by
    have hfirst : ∀ c ∈ g.head?, isBlank c = false := by
      rwa [hg, List.head?_append_of_ne_nil g hgne] at hhead
    have hstart := prefix_strip hgne hfirst hlast y
    rw [← hg, hstrip] at hstart
    exact hstart.trans (strip_prefix_self (by simpa using hblank))
  refine ⟨fun hsemi => ?_, ?_, fun hcomment => ?_⟩
  · obtain ⟨g, y, rfl⟩ := List.append_of_mem hsemi
    have hstart := hkept (g := g ++ [';']) (y := y) (by simp) (by simp) (by simp [isBlank])
    have hmem : ';' ∈ c :: w := hstart.subset (by simp)
    rcases List.mem_cons.1 hmem with heq | hmem
    · exact hc heq.symm
    · exact hw hmem
  · obtain ⟨d, y, rfl⟩ := List.exists_cons_of_ne_nil hne
    exact ⟨d, y, rfl, hhead d rfl⟩
  · obtain ⟨g, y, hg, hfirst, hlast, hlength⟩ := exists_comment hv hcomment
    have hgne : g ≠ [] := by
      rintro rfl
      cases hfirst
    obtain ⟨z, hz⟩ := hkept hg hgne (by rw [hlast]; simp [isBlank])
    rw [← hz, List.append_assoc, hlength] at hblock
    cases hblock

theorem SourceFile.revalue_inj {q : Position} {μ : Span → Span} {value value' : String}
    {d : ConstDecl} (hd : .const d ∈ f.declarations) (hq : d.span.holds q)
    (h : (f.revalue q value).respan μ = (f.revalue q value').respan μ) : value = value' := by
  have hdecls := congrArg declarations h
  simp only [revalue, declarations_respan, declarations_mapConst, List.map_map] at hdecls
  have hsame := List.map_inj_left.1 hdecls _ hd
  simp only [Function.comp_apply, Decl.mapConst, Decl.respan, ConstDecl.revalue, hq, if_true,
    Decl.const.injEq] at hsame
  exact congrArg ConstDecl.value hsame

theorem SourceFile.mem_revalue {q : Position} {value : String} (μ : Span → Span) {d : ConstDecl}
    (hd : .const d ∈ f.declarations) :
    .const ((d.revalue q value).respan μ) ∈ ((f.revalue q value).respan μ).declarations := by
  simp only [revalue, declarations_respan, declarations_mapConst, List.map_map]
  exact List.mem_map.2 ⟨_, hd, rfl⟩

/-- A constant has its initializer for a value, and nothing else changes but places, exactly if the
reader takes the initializer whole and the mask keeps it. -/
theorem SourceFile.parse_withInitializer_iff (h : OpensInitializer pre x post ts)
    (hcloses : Closes .start pre ts) (hflag : signatureFlag false none ts = some b)
    (hv : Complete v) (hne : v ≠ []) (hsolid : ∀ c ∈ v.head?, isGapSpace c = false)
    (hparse : SourceFile.parse (String.ofList (withInitializer pre x ['0'] post)) file = .ok f) :
    SourceFile.parse (String.ofList (withInitializer pre x v post)) file =
        .ok ((f.revalue (initializerStart pre x) (.ofList (strip v))).respan
          (Span.behind (initializerStart pre x) v)) ↔
      Uncut v ∧ strip (maskFrom b none v) = strip v := by
  constructor
  · intro hvalue
    obtain ⟨d, hd, hq⟩ := h.exists_const hcloses hflag hparse
    have hcut : Uncut v := by
      refine h.uncut_of_parse hcloses hflag hv hne hsolid hvalue
        (SourceFile.mem_revalue _ hd) ?_
      simp [ConstDecl.revalue, hq, ConstDecl.respan]
    obtain ⟨f', hparse', heq⟩ :=
      (SourceFile.parse_withInitializer h hcloses hflag hv hcut file _).1 hvalue
    cases hparse.symm.trans hparse'
    have hsame := SourceFile.revalue_inj hd hq heq
    exact ⟨hcut, by simpa using congrArg String.toList hsame⟩
  · rintro ⟨hcut, hmask⟩
    refine (SourceFile.parse_withInitializer h hcloses hflag hv hcut file _).2 ⟨f, hparse, ?_⟩
    rw [hmask]

end

def initializerTokens? (k : Nat) (pre x post : List Char) : Option (List Token) :=
  match readPieces k .start .start (mask (withInitializer pre x ['0'] post)) with
  | some (ts, s, p, '=' :: cs) =>
      match s.feed (tokenAt .equals p ['=']) with
      | some (.constEquals ..) =>
          if x.all isGapSpace && cs.length == x.length + (post.length + 2) then some ts else none
      | _ => none
  | _ => none

section

variable {k : Nat} {pre x post : List Char}

theorem opensInitializer_of_initializerTokens? {ts : List Token}
    (h : initializerTokens? k pre x post = some ts) : OpensInitializer pre x post ts := by
  rw [initializerTokens?] at h
  split at h
  · next us s p cs hpieces =>
    split at h
    · next place colon type eq hfeed =>
      split at h
      · next hspaces =>
        cases h
        simp only [Bool.and_eq_true, List.all_eq_true, beq_iff_eq] at hspaces
        exact ⟨hspaces.1, s, p, cs, place, colon, type, eq, reads_of_readPieces hpieces,
          hspaces.2, hfeed⟩
      · cases h
    · cases h
  · cases h

theorem exists_of_initializerTokens? {b : Bool}
    (h : (initializerTokens? k pre x post).any fun ts => ts.all (·.kind != .initializer) &&
      signatureFlag false none ts == some b) :
    ∃ ts, OpensInitializer pre x post ts ∧ Closes .start pre ts ∧
      signatureFlag false none ts = some b :=
  exists_of_tokens? (fun _ => opensInitializer_of_initializerTokens?) h .start pre

end

/-- An initializer is taken whole exactly if it has no semicolon, quoted, bracketed or not, and
neither white space nor a block comment at its head. A text with such an initializer declares what
it declares with `0`, but for the value of the constant, which is the initializer as the mask
leaves it. With any other initializer, the constant does not come to have it for a value. -/
theorem SourceFile.initializer_opaque_iff {pre x v post : List Char} {ts : List Token} {b : Bool}
    (h : OpensInitializer pre x post ts) (hcloses : Closes .start pre ts)
    (hflag : signatureFlag false none ts = some b) (hv : Complete v) (hne : v ≠ [])
    (hsolid : ∀ c ∈ v.head?, isGapSpace c = false) (file : Option String) :
    (Uncut v → ∀ f, SourceFile.parse (String.ofList (withInitializer pre x v post)) file = .ok f ↔
      ∃ f₀, SourceFile.parse (String.ofList (withInitializer pre x ['0'] post)) file = .ok f₀ ∧
        (f₀.revalue (initializerStart pre x) (.ofList (strip (maskFrom b none v)))).respan
          (Span.behind (initializerStart pre x) v) = f) ∧
    ∀ f₀, SourceFile.parse (String.ofList (withInitializer pre x ['0'] post)) file = .ok f₀ →
      (∃ d, .const d ∈ f₀.declarations ∧ d.span.holds (initializerStart pre x)) ∧
      (SourceFile.parse (String.ofList (withInitializer pre x v post)) file =
          .ok ((f₀.revalue (initializerStart pre x) (.ofList (strip v))).respan
            (Span.behind (initializerStart pre x) v)) ↔
        Uncut v ∧ strip (maskFrom b none v) = strip v) :=
  ⟨fun hcut => parse_withInitializer h hcloses hflag hv hcut file, fun _ hparse =>
    ⟨h.exists_const hcloses hflag hparse,
      parse_withInitializer_iff h hcloses hflag hv hne hsolid hparse⟩⟩

theorem SourceFile.initializer_opaque_of_quotes :
    let pre := "impl A \x7b const N: T ".toList
    let x := [' ']
    let v := "\"\x7d\" + '\x7b' // a\n - b".toList
    let post := " fn f(); \x7d".toList
    ∃ ts f₀, (OpensInitializer pre x post ts ∧ Closes .start pre ts ∧
        signatureFlag false none ts = some false ∧ Complete v ∧ v ≠ [] ∧
        (∀ c ∈ v.head?, isGapSpace c = false) ∧ Uncut v ∧
        SourceFile.parse (String.ofList (withInitializer pre x ['0'] post)) = .ok f₀) ∧
      SourceFile.parse (String.ofList (withInitializer pre x v post)) =
        .ok ((f₀.revalue (initializerStart pre x) (.ofList v)).respan
          (Span.behind (initializerStart pre x) v)) := by
  intro pre x v post
  obtain ⟨ts, hopens, hcloses, hflag⟩ :
      ∃ ts, OpensInitializer pre x post ts ∧ Closes .start pre ts ∧
        signatureFlag false none ts = some false :=
    exists_of_initializerTokens? (k := 13) (by decide +kernel)
  have hsome : (SourceFile.parse
      (String.ofList (withInitializer pre x ['0'] post))).toOption.isSome := by decide +kernel
  obtain ⟨f₀, hf⟩ := Option.isSome_iff_exists.1 hsome
  have hparse := eq_ok_of_toOption hf
  have hv : Complete v := ⟨fun _ => rfl, by decide +kernel⟩
  have hcut : Uncut v := ⟨by decide +kernel, ⟨'"', _, rfl, by decide⟩, by decide +kernel⟩
  have hne : v ≠ [] := by decide +kernel
  have hmask : strip (maskFrom false none v) = strip v ∧ strip v = v := by decide +kernel
  have hvalue := ((SourceFile.initializer_opaque_iff hopens hcloses hflag hv hne hcut.solid
    none).2 f₀ hparse).2.2 ⟨hcut, hmask.1⟩
  rw [hmask.2] at hvalue
  exact ⟨ts, f₀, ⟨hopens, hcloses, hflag, hv, hne, hcut.solid, hcut, hparse⟩, hvalue⟩

/-- A semicolon in a string or in brackets ends the initializer, and the source is rejected. -/
theorem SourceFile.not_initializer_opaque_of_semicolon :
    let pre := "const A: T ".toList
    ∃ ts, OpensInitializer pre [' '] [] ts ∧ Closes .start pre ts ∧
      signatureFlag false none ts = some false ∧
      (∃ f, SourceFile.parse (String.ofList (withInitializer pre [' '] ['0'] [])) = .ok f) ∧
      ∀ v ∈ ["\";\"".toList, "[0; 4]".toList], Complete v ∧
        ∀ f, SourceFile.parse (String.ofList (withInitializer pre [' '] v [])) ≠ .ok f := by
  intro pre
  obtain ⟨ts, hopens, hcloses, hflag⟩ :
      ∃ ts, OpensInitializer pre [' '] [] ts ∧ Closes .start pre ts ∧
        signatureFlag false none ts = some false :=
    exists_of_initializerTokens? (k := 7) (by decide +kernel)
  have hsome : (SourceFile.parse
      (String.ofList (withInitializer pre [' '] ['0'] []))).toOption.isSome := by decide +kernel
  obtain ⟨f, hf⟩ := Option.isSome_iff_exists.1 hsome
  have hnone : ∀ v ∈ ["\";\"".toList, "[0; 4]".toList],
      (SourceFile.parse (String.ofList (withInitializer pre [' '] v []))).toOption.isNone := by
    decide +kernel
  refine ⟨ts, hopens, hcloses, hflag, ⟨f, eq_ok_of_toOption hf⟩, fun v hv => ⟨?_, ?_⟩⟩
  · simp only [List.mem_cons, List.not_mem_nil, or_false] at hv
    rcases hv with rfl | rfl
    · exact ⟨fun _ => rfl, by decide +kernel⟩
    · exact ⟨fun _ => rfl, by decide +kernel⟩
  · intro f' hf'
    have := hnone v hv
    rw [hf'] at this
    cases this

end NativeBinding
