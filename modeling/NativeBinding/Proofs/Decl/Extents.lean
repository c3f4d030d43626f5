import NativeBinding.Proofs.Decl.Source
import NativeBinding.Proofs.Grammar.Masked

/-!
What the spans of a parsed text cover. Tokens stand apart and in order, each where the text spells
it, and the mask moves none of them. A tree holds its tokens in order; so a part of a tree lies
within the tree, trees that follow each other cover ranges that follow each other, and the range of
a name holds that name in the text as it was before the mask.
-/

namespace NativeBinding

open Grammar (AttrTree InOrder ItemTree Lexeme Reads Token spanOf Position.past)

namespace Span

def Covers (s : Span) (p q : Position) : Prop :=
  s = .between s.file p q ∧ p.Before q

/-- Two ranges of one file, of which the first ends before the second starts or right there. -/
def Precedes (s t : Span) : Prop :=
  s.file = t.file ∧ ∃ p q p' q', s.Covers p q ∧ t.Covers p' q' ∧ q.UpTo p'

/-- Two ranges of one file, of which the second holds the first. -/
def Within (s t : Span) : Prop :=
  s.file = t.file ∧ ∃ p q p' q', s.Covers p q ∧ t.Covers p' q' ∧ p'.UpTo p ∧ q.UpTo q'

def holds (s : Span) (p : Position) : Bool :=
  match s.line, s.column, s.endLine, s.endColumn with
  | some line, some column, some endLine, some endColumn =>
      (line < p.line || line == p.line && column ≤ p.column) &&
        (p.line < endLine || p.line == endLine && p.column < endColumn)
  | _, _, _, _ => false

theorem holds_between {file : Option String} {p q r : Position} :
    (between file p q).holds r = true ↔ p.UpTo r ∧ r.Before q := by
  simp only [holds, between, Bool.and_eq_true, Bool.or_eq_true, decide_eq_true_eq, beq_iff_eq,
    Position.UpTo, Position.Before]
  omega

end Span

def placed : Position → List Char → List (Position × Char)
  | _, [] => []
  | p, c :: cs => (p, c) :: placed (p.after c) cs

def Span.cut (s : Span) (text : List Char) : List Char :=
  ((placed .start text).filter fun x => s.holds x.1).map (·.2)

section

variable {p : Position} {cs ds : List Char}

theorem placed_append : placed p (cs ++ ds) = placed p cs ++ placed (Position.past p cs) ds := by
  induction cs generalizing p with
  | nil => rfl
  | cons c cs ih => simp only [List.cons_append, placed, ih, Grammar.past_cons]

theorem map_placed : (placed p cs).map (·.2) = cs := by
  induction cs generalizing p with
  | nil => rfl
  | cons c cs ih => simp only [placed, List.map_cons, ih]

theorem upTo_past (p : Position) (cs : List Char) : p.UpTo (Position.past p cs) := by
  by_cases h : cs = []
  · subst h
    exact .refl p
  · exact (Grammar.before_past p h).upTo

theorem mem_placed {x : Position × Char} (h : x ∈ placed p cs) :
    p.UpTo x.1 ∧ x.1.Before (Position.past p cs) := by
  induction cs generalizing p with
  | nil => cases h
  | cons c cs ih =>
    have hafter := p.before_after c
    rcases List.mem_cons.1 h with rfl | h
    · exact ⟨.refl p, hafter.trans_upTo (upTo_past _ cs)⟩
    · obtain ⟨hstart, hstop⟩ := ih h
      exact ⟨(hafter.trans_upTo hstart).upTo, hstop⟩

theorem Span.cut_between (file : Option String) (pre word post : List Char) :
    (between file (Position.past .start pre) (Position.past .start (pre ++ word))).cut
      (pre ++ (word ++ post)) = word := by
  rw [cut, placed_append, placed_append, List.filter_append, List.filter_append,
    Grammar.past_append]
  have hpre : (placed .start pre).filter (fun x => (between file (Position.past .start pre)
      (Position.past (Position.past .start pre) word)).holds x.1) = [] := by
    rw [List.filter_eq_nil_iff]
    intro x hx hheld
    exact ((mem_placed hx).2.trans_upTo (holds_between.1 hheld).1).ne rfl
  have hword : (placed (Position.past .start pre) word).filter (fun x => (between file
      (Position.past .start pre) (Position.past (Position.past .start pre) word)).holds x.1) =
      placed (Position.past .start pre) word := by
    rw [List.filter_eq_self]
    exact fun x hx => holds_between.2 (mem_placed hx)
  have hpost : (placed (Position.past (Position.past .start pre) word) post).filter
      (fun x => (between file (Position.past .start pre)
        (Position.past (Position.past .start pre) word)).holds x.1) = [] := by
    rw [List.filter_eq_nil_iff]
    intro x hx hheld
    exact ((holds_between.1 hheld).2.trans_upTo (mem_placed hx).1).ne rfl
  rw [hpre, hword, hpost, List.nil_append, List.append_nil, map_placed]

end

section

variable {file : Option String} {ts us : List Token}

theorem Grammar.InOrder.sublist (h : InOrder ts) (hus : us.Sublist ts) : InOrder us :=
  ⟨fun t ht => h.long t (hus.subset ht), h.apart.sublist hus⟩

theorem Grammar.InOrder.head_upTo (h : InOrder ts) (hne : ts ≠ []) {t : Token} (ht : t ∈ ts) :
    (ts.head hne).start.UpTo t.start := by
  cases ts with
  | nil => exact absurd rfl hne
  | cons u ts =>
    rcases List.mem_cons.1 ht with rfl | ht
    · exact .refl _
    · exact (List.rel_of_pairwise_cons h.starts ht).upTo

theorem Grammar.InOrder.upTo_last (h : InOrder ts) (hne : ts ≠ []) {t : Token} (ht : t ∈ ts) :
    t.stop.UpTo (ts.getLast hne).stop := by
  rw [← List.dropLast_concat_getLast hne] at h ht
  rcases List.mem_append.1 ht with ht | ht
  · have hstart := (List.pairwise_append.1 h.apart).2.2 t ht _ (List.mem_singleton_self _)
    exact hstart.trans (h.long _ (by simp)).upTo
  · rw [List.mem_singleton.1 ht]
    exact .refl _

theorem covers_spanOf (h : InOrder ts) (hne : ts ≠ []) :
    (spanOf file ts).Covers (ts.head hne).start (ts.getLast hne).stop := by
  have hbefore : (ts.head hne).start.Before (ts.getLast hne).stop :=
    (h.long _ (List.head_mem hne)).trans_upTo (h.upTo_last hne (List.head_mem hne))
  cases ts with
  | nil => exact absurd rfl hne
  | cons t ts => exact ⟨rfl, hbefore⟩

theorem file_spanOf (file : Option String) (ts : List Token) : (spanOf file ts).file = file := by
  cases ts <;> rfl

theorem within_spanOf (h : InOrder ts) {s : Span} (hs : SpansIn file ts s) :
    s.Within (spanOf file ts) := by
  obtain ⟨us, hne, hus, rfl⟩ := hs
  have hts : ts ≠ [] := by
    rintro rfl
    exact hne (List.sublist_nil.1 hus)
  refine ⟨by simp only [file_spanOf], _, _, _, _, covers_spanOf (h.sublist hus) hne,
    covers_spanOf h hts, ?_, ?_⟩
  · exact h.head_upTo hts (hus.subset (List.head_mem hne))
  · exact h.upTo_last hts (hus.subset (List.getLast_mem hne))

theorem precedes_spanOf (h : InOrder (ts ++ us)) (hts : ts ≠ []) (hus : us ≠ []) :
    (spanOf file ts).Precedes (spanOf file us) := by
  have hfirst := h.sublist (List.sublist_append_left ts us)
  have hsecond := h.sublist (List.sublist_append_right ts us)
  have hbetween := (List.pairwise_append.1 h.apart).2.2 _ (List.getLast_mem hts) _
    (List.head_mem hus)
  exact ⟨by simp only [file_spanOf], _, _, _, _, covers_spanOf hfirst hts,
    covers_spanOf hsecond hus, hbetween⟩

theorem pairwise_precedes {parts : List (List Token)} (h : InOrder parts.flatten)
    (hne : ∀ ts ∈ parts, ts ≠ []) : (parts.map (spanOf file)).Pairwise Span.Precedes := by
  induction parts with
  | nil => exact .nil
  | cons ts parts ih =>
    rw [List.flatten_cons] at h
    rw [List.forall_mem_cons] at hne
    refine List.pairwise_cons.2 ⟨?_, ih (h.sublist (List.sublist_append_right _ _)) hne.2⟩
    intro s hs
    obtain ⟨us, hus, rfl⟩ := List.mem_map.1 hs
    have hsub : (ts ++ us).Sublist (ts ++ parts.flatten) :=
      (List.Sublist.refl ts).append (List.sublist_flatten_of_mem hus)
    exact precedes_spanOf (h.sublist hsub) hne.1 (hne.2 us hus)

end

def extents (attrs : List Attribute) (span : Span) : List Span :=
  attrs.map Attribute.span ++ [span]

def Decl.extents (d : Decl) : List Span :=
  NativeBinding.extents d.attrs d.span

def SourceItem.extents : SourceItem → List Span
  | decl d => d.extents
  | block b => NativeBinding.extents b.attrs b.span

section

variable {file : Option String}

theorem Attribute.span_ofMeta {inner : Bool} {span : Span} {t : Grammar.Meta} {a : Attribute}
    (h : Attribute.ofMeta file inner span t = .ok a) : a.span = span := by
  cases t with
  | word r =>
    cases h
    rfl
  | list r items | value r eq value =>
    obtain ⟨x, -, h⟩ := bind_eq_ok_iff.1 h
    cases h
    rfl

theorem Attribute.span_ofTree {t : AttrTree} {a : Attribute}
    (h : Attribute.ofTree file t = .ok a) : a.span = spanOf file t.tokens := by
  cases t with
  | doc l =>
    cases h
    rfl
  | written hash bang opens content closes => exact Attribute.span_ofMeta h

theorem Grammar.AttrTree.tokens_ne_nil (t : AttrTree) : t.tokens ≠ [] := by
  cases t <;> simp [AttrTree.tokens, Lexeme.token]

theorem Grammar.ParamAttrTree.tokens_ne_nil (t : ParamAttrTree) : t.tokens ≠ [] := by
  simp [ParamAttrTree.tokens, Lexeme.token]

theorem Grammar.ItemBody.tokens_ne_nil (t : Grammar.ItemBody) : t.tokens ≠ [] := by
  cases t with
  | member m => exact m.tokens_ne_nil
  | block b => simp [ItemBody.tokens, BlockTree.tokens, Lexeme.token]

section

variable {α : Type} {spell : α → List Token} {trees : List α} {body : List Token}

/-- The tokens of each attribute before a part, and those of the part. -/
def segments (spell : α → List Token) (trees : List α) (body : List Token) : List (List Token) :=
  trees.map spell ++ [body]

theorem flatten_segments (spell : α → List Token) (trees : List α) (body : List Token) :
    (segments spell trees body).flatten = trees.flatMap spell ++ body := by
  simp [segments, List.flatMap_def]

theorem forall_segments (trees : List α) (hspell : ∀ t, spell t ≠ []) (hbody : body ≠ []) :
    ∀ ts ∈ segments spell trees body, ts ≠ [] := by
  intro ts hts
  rcases List.mem_append.1 hts with hts | hts
  · obtain ⟨t, -, rfl⟩ := List.mem_map.1 hts
    exact hspell t
  · rwa [List.mem_singleton.1 hts]

theorem extents_of_mapM {f : α → Except BadLiteral Attribute}
    (hf : ∀ t a, f t = .ok a → a.span = spanOf file (spell t)) {attrs : List Attribute}
    (h : trees.mapM f = .ok attrs) (body : List Token) :
    extents attrs (spanOf file body) = (segments spell trees body).map (spanOf file) := by
  rw [extents, map_of_mapM hf h, segments, List.map_append, List.map_map]
  rfl

end

theorem extents_ofTrees {trees : List AttrTree} {attrs : List Attribute}
    (h : trees.mapM (Attribute.ofTree file) = .ok attrs) (body : List Token) :
    extents attrs (spanOf file body) =
      (segments AttrTree.tokens trees body).map (spanOf file) :=
  extents_of_mapM (fun _ _ => Attribute.span_ofTree) h body

theorem pairwise_extents {α β : Type} {f : α → Except BadLiteral β} {attrs : α → List AttrTree}
    {body : α → List Token} (hbody : ∀ t, body t ≠ []) {spans : β → List Span}
    (hspans : ∀ t d, f t = .ok d →
      spans d = (segments AttrTree.tokens (attrs t) (body t)).map (spanOf file))
    {trees : List α} {ds : List β} (h : trees.mapM f = .ok ds)
    (hts : InOrder (trees.flatMap fun t => (attrs t).flatMap AttrTree.tokens ++ body t)) :
    (ds.flatMap spans).Pairwise Span.Precedes := by
  have hmap : ds.flatMap spans =
      (trees.flatMap fun t => segments AttrTree.tokens (attrs t) (body t)).map (spanOf file) := by
    rw [List.map_flatMap, List.flatMap_def, List.flatMap_def, map_of_mapM hspans h]
  rw [hmap]
  apply pairwise_precedes
  · simpa only [← List.flatMap_id, List.flatMap_assoc, ← flatten_segments] using hts
  · intro ts hmem
    obtain ⟨t, -, hmem⟩ := List.mem_flatMap.1 hmem
    exact forall_segments (attrs t) AttrTree.tokens_ne_nil (hbody t) ts hmem

theorem FnDecl.params_ofTree {block : Option ImplHeader} {attrs : List Attribute}
    {t : Grammar.FnTree} {d : FnDecl} (h : FnDecl.ofTree file block attrs t = .ok d)
    (hts : InOrder t.tokens) {p : TypedParam} (hp : .typed p ∈ d.params) :
    (extents p.attrs p.span).Pairwise Span.Precedes ∧
      ∀ s ∈ extents p.attrs p.span, s.Within (spanOf file t.tokens) := by
  obtain ⟨params, hparams, h⟩ := bind_eq_ok_iff.1 h
  cases h
  obtain ⟨u, hu, hof⟩ := exists_of_mem_mapM hparams hp
  obtain ⟨as, has, hof⟩ := bind_eq_ok_iff.1 hof
  have hsub : u.tokens.Sublist t.tokens := by
    have hgroup : u.tokens.Sublist (t.params.tokens Grammar.ParamTree.tokens) :=
      Grammar.Group.tokens_sublist hu
    exact hgroup.trans (by grind [Grammar.FnTree.tokens])
  cases hbody : u.body with
  | receiver s =>
    rw [hbody] at hof
    cases hof
  | typed pattern colon type =>
    rw [hbody] at hof
    cases hof
    have hattr (t : Grammar.ParamAttrTree) (a : Attribute) (h : Attribute.ofParam file t = .ok a) :
        a.span = spanOf file t.tokens := Attribute.span_ofMeta h
    rw [← hbody, extents_of_mapM hattr has]
    have hflat := flatten_segments Grammar.ParamAttrTree.tokens u.attrs u.body.tokens
    have hne := forall_segments u.attrs Grammar.ParamAttrTree.tokens_ne_nil u.body.tokens_ne_nil
    refine ⟨pairwise_precedes (hflat ▸ hts.sublist hsub) hne, fun s hs => ?_⟩
    obtain ⟨us, hus, rfl⟩ := List.mem_map.1 hs
    have hus' : us.Sublist u.tokens := by
      have hsub := List.sublist_flatten_of_mem hus
      rwa [hflat] at hsub
    exact within_spanOf hts ((spansIn_spanOf file (hne us hus)).mono (hus'.trans hsub))

theorem Decl.extents_ofTree {block : Option ImplHeader} {attrs : List AttrTree}
    {t : Grammar.MemberBody} {d : Decl} (h : Decl.ofTree file block attrs t = .ok d) :
    d.extents = (segments AttrTree.tokens attrs t.tokens).map (spanOf file) := by
  have hd := Decl.ofTree_spec h
  rw [extents, hd.span, extents_ofTrees hd.attrs]

theorem SourceItem.extents_ofTree {t : ItemTree} {i : SourceItem}
    (h : SourceItem.ofTree file t = .ok i) :
    i.extents = (segments AttrTree.tokens t.attrs t.body.tokens).map (spanOf file) := by
  obtain ⟨m, d, hbody, rfl, hd⟩ | ⟨u, b, hbody, rfl, hb⟩ := SourceItem.ofTree_cases h
  · rw [hbody]
    exact Decl.extents_ofTree hd
  · rw [hbody, extents, hb.span, extents_ofTrees hb.attrs]
    rfl

/-- The spans of what stands before the members of a block. -/
def ImplHeader.spans (h : ImplHeader) : List Span :=
  h.subject.spans ++ h.generics.map GenericParam.span

structure ImplBlock.Placed (b : ImplBlock) : Prop where
  apart : (b.members.flatMap Decl.extents).Pairwise Span.Precedes
  members : ∀ d ∈ b.members, ∀ s ∈ d.spans, s.Within b.span
  header : ∀ s ∈ b.header.spans, s.Within b.span

theorem ImplBlock.placed_ofTree {attrs : List AttrTree} {t : Grammar.BlockTree} {b : ImplBlock}
    (h : b.OfTree file attrs t) (hts : InOrder t.tokens) : b.Placed := by
  have hsub : (t.members.flatMap Grammar.MemberTree.tokens).Sublist t.tokens := by
    grind [Grammar.BlockTree.tokens]
  have hhead : t.head.tokens.Sublist t.tokens := by grind [Grammar.BlockTree.tokens]
  refine ⟨?_, ?_, ?_⟩
  · exact pairwise_extents (fun m => m.body.tokens_ne_nil)
      (fun m d hd => Decl.extents_ofTree hd) h.members (hts.sublist hsub)
  · intro d hd s hs
    obtain ⟨m, hm, hof⟩ := exists_of_mem_mapM h.members hd
    have hmember : m.tokens.Sublist t.tokens := (Grammar.tokens_sublist_flatMap hm).trans hsub
    rw [h.span]
    exact within_spanOf hts ((Decl.spans_ofTree hof s hs).mono hmember)
  · intro s hs
    rw [h.span]
    refine within_spanOf hts ?_
    rw [h.header] at hs
    rcases List.mem_append.1 hs with hs | hs
    · have hpart : t.head.subject.tokens.Sublist t.head.tokens := by
        grind [Grammar.BlockHead.tokens]
      exact (TypeExpr.spans_ofTree file t.head.subject s hs).mono (hpart.trans hhead)
    · have hpart : (Grammar.optional Grammar.GenericsTree.tokens t.head.generics).Sublist
          t.head.tokens := by grind [Grammar.BlockHead.tokens]
      exact (GenericParam.spans_listOf file t.head.generics s hs).mono (hpart.trans hhead)

structure Decl.Placed (text : List Char) (d : Decl) : Prop where
  name : d.nameSpan.cut text = d.name.toList
  inner : ∀ s ∈ d.innerSpans, s.Within d.span
  params : ∀ f, d = .fn f → ∀ p, .typed p ∈ f.params →
    (NativeBinding.extents p.attrs p.span).Pairwise Span.Precedes ∧
      ∀ s ∈ NativeBinding.extents p.attrs p.span, s.Within d.span

namespace Body

/-- What holds no space stands in a text as it stands behind the mask. -/
theorem exists_of_mask {text pre word post : List Char} (h : mask text = pre ++ (word ++ post))
    (hword : ' ' ∉ word) :
    ∃ pre' post', text = pre' ++ (word ++ post') ∧ pre'.length = pre.length := by
  have hlen := congrArg List.length h
  simp only [mask_length, List.length_append] at hlen
  have hmiddle : (text.drop pre.length).take word.length = word := by
    apply List.ext_getElem
    · simp only [List.length_take, List.length_drop]
      omega
    intro i _ hi
    have hchar : (mask text)[pre.length + i]? = some word[i] := by
      rw [h, List.getElem?_append_right (by omega), Nat.add_sub_cancel_left,
        List.getElem?_append_left hi, List.getElem?_eq_getElem hi]
    have hkept := getElem?_of_maskFrom hchar (fun heq => hword (heq ▸ List.getElem_mem hi))
    rw [List.getElem_take, List.getElem_drop]
    exact (List.getElem?_eq_some_iff.1 hkept).2
  have hpre : (text.take pre.length).length = pre.length := by
    rw [List.length_take]
    omega
  refine ⟨text.take pre.length, (text.drop pre.length).drop word.length, ?_, hpre⟩
  calc text = text.take pre.length ++ text.drop pre.length := (List.take_append_drop _ _).symm
    _ = text.take pre.length ++ ((text.drop pre.length).take word.length ++
          (text.drop pre.length).drop word.length) := by rw [List.take_append_drop word.length]
    _ = text.take pre.length ++ (word ++ (text.drop pre.length).drop word.length) := by
      rw [hmiddle]

end Body

theorem Grammar.Reads.cut_ident {text cs : List Char} {ts : List Token} {s : Grammar.State}
    {p : Position} (h : Reads .start .start (Body.mask text) ts s p cs) {l : Lexeme .ident}
    (hl : ⟨.ident, l⟩ ∈ ts) : (l.span file).cut text = l.text.toList := by
  obtain ⟨pre, word, post, hmask, -, heq⟩ := h.exists_word hl
  obtain ⟨name, start, stop⟩ := l
  simp only [tokenAt, Token.mk.injEq, heq_eq_eq, Lexeme.mk.injEq, true_and] at heq
  obtain ⟨rfl, rfl, rfl⟩ := heq
  have hword : ' ' ∉ word := by
    have hident : IsIdent (String.ofList word).toList := h.isIdent hl
    rw [String.toList_ofList] at hident
    exact hident.not_mem (by decide) (by decide)
  obtain ⟨pre', post', rfl, hlen⟩ := Body.exists_of_mask hmask hword
  have hplace {w w' : List Char} (hw : w.length = w'.length)
      (hfront : w <+: pre' ++ (word ++ post'))
      (hfront' : w' <+: Body.mask (pre' ++ (word ++ post'))) :
      Position.past .start w' = Position.past .start w := by
    have htake := past_take_maskFrom .start false none (pre' ++ (word ++ post')) w.length
    rw [List.prefix_iff_eq_take.1 hfront, List.prefix_iff_eq_take.1 hfront', ← hw]
    simpa only [Body.mask_eq_maskFrom, List.take_take, Nat.min_self] using htake
  have hstart : Position.past .start pre = Position.past .start pre' :=
    hplace hlen ⟨_, rfl⟩ ⟨_, hmask.symm⟩
  have hstop : Position.past .start (pre ++ word) = Position.past .start (pre' ++ word) :=
    hplace (by simp [hlen]) ⟨post', by simp⟩ ⟨post, by simp [hmask]⟩
  rw [String.toList_ofList, Lexeme.span, ← past_append, hstart, hstop]
  exact Span.cut_between file pre' word post'

structure SourceFile.Placed (text : List Char) (f : SourceFile) : Prop where
  apart : (f.items.flatMap SourceItem.extents).Pairwise Span.Precedes
  blocks : ∀ b, .block b ∈ f.items → b.Placed
  declarations : ∀ d ∈ f.declarations, d.Placed text

/-- The names of a parsed text are cut out by their spans, its items and the members of a block
follow each other with their attributes, and what belongs to a part lies within it. -/
theorem SourceFile.placed_of_parse {text : String} {f : SourceFile}
    (h : SourceFile.parse text file = .ok f) : f.Placed text.toList := by
  obtain ⟨ts, s, p, items, hreads, -, htokens, hitems⟩ := exists_reads_of_parse h
  have hts : InOrder (items.flatMap ItemTree.tokens) := htokens ▸ hreads.inOrder.2
  refine ⟨?_, ?_, ?_⟩
  · exact pairwise_extents (fun t => t.body.tokens_ne_nil)
      (fun t i hi => SourceItem.extents_ofTree hi) hitems hts
  · intro b hb
    obtain ⟨t, ht, hof⟩ := exists_of_mem_mapM hitems hb
    obtain ⟨m, d, -, hd, -⟩ | ⟨u, b', hbody, hb', hspec⟩ := SourceItem.ofTree_cases hof
    · cases hd
    · cases hb'
      have hsub : u.tokens.Sublist t.tokens := by
        rw [ItemTree.tokens, hbody]
        exact List.sublist_append_right _ _
      exact ImplBlock.placed_ofTree hspec
        (hts.sublist (hsub.trans (Grammar.tokens_sublist_flatMap ht)))
  · intro d hd
    obtain ⟨t, ht, b, attrs, m, hm, hof⟩ := exists_member hitems hd
    have hspec := Decl.ofTree_spec hof
    obtain ⟨l, hl, hname, hspan⟩ := hspec.name
    have hmember : InOrder m.tokens := hts.sublist ((List.sublist_append_right _ _).trans
      ((ItemTree.tokens_of_member hm).sublist.trans (Grammar.tokens_sublist_flatMap ht)))
    have hmem : ⟨.ident, l⟩ ∈ ts := by
      rw [← htokens]
      exact List.mem_flatMap.2 ⟨t, ht, (ItemTree.tokens_of_member hm).subset
        (List.mem_append_right _ hl)⟩
    refine ⟨?_, ?_, ?_⟩
    · rw [hname, hspan]
      exact hreads.cut_ident hmem
    · intro s hs
      rw [hspec.span]
      exact within_spanOf hmember (hspec.inner s hs)
    · rintro f rfl p hp
      obtain ⟨as, -, hof⟩ := bind_eq_ok_iff.1 hof
      cases m with
      | const c => cases hof
      | fn tree =>
        obtain ⟨f', hf', hof⟩ := bind_eq_ok_iff.1 hof
        cases hof
        rw [hspec.span]
        exact FnDecl.params_ofTree hf' hmember hp

theorem SourceFile.placed_of_bodies :
    let text :=
      "/// a\nfn f(x: T) \x7b \"\n\" \x7d\n#[b] impl A \x7b #[c] fn r#g(#[d] y: &U); \x7d fn h();"
    ∃ f, SourceFile.parse text = .ok f ∧ f.declarations.map Decl.name = ["f", "r#g", "h"] ∧
      f.Placed text.toList := by
  intro text
  have hnames : (parse text).toOption.map (·.declarations.map Decl.name) =
      some ["f", "r#g", "h"] := by decide +kernel
  obtain ⟨f, hf, hnames⟩ := Option.map_eq_some_iff.1 hnames
  have hparse := eq_ok_of_toOption hf
  exact ⟨f, hparse, hnames, placed_of_parse hparse⟩

end

end NativeBinding
