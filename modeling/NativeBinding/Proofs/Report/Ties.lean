import NativeBinding.Decl.Parse
import NativeBinding.Proofs.Binding.Places
import NativeBinding.Proofs.Decl.Source

/-!
Diagnostics of different declarations at one place. A report is sorted by place, and diagnostics at
one place keep the order in which they arrived. Two declarations of a file have no place in common
but the generic parameters of a block that both stand in, and there both report the same: so it does
not matter which of them arrives first.
-/

namespace NativeBinding

open Grammar (Token ItemTree)

/-- At each place one of two batches has nothing to report, or both report the same. -/
def Interchangeable (a b : List Diagnostic) : Prop :=
  ∀ k, a.filter (·.key = k) = [] ∨ b.filter (·.key = k) = [] ∨
    a.filter (·.key = k) = b.filter (·.key = k)

theorem Interchangeable.refl (a : List Diagnostic) : Interchangeable a a :=
  fun _ => Or.inr (Or.inr rfl)

theorem Interchangeable.symm {a b : List Diagnostic} (h : Interchangeable a b) :
    Interchangeable b a := by
  intro k
  rcases h k with h | h | h
  · exact Or.inr (Or.inl h)
  · exact Or.inl h
  · exact Or.inr (Or.inr h.symm)

def Span.key (s : Span) : String × Int × Int :=
  (s.file.getD "", s.line.getD 0, s.column.getD 0)

def Apart (ts us : List Token) : Prop :=
  ∀ t ∈ ts, ∀ u ∈ us, t.start ≠ u.start

theorem Apart.symm {ts us : List Token} (h : Apart ts us) : Apart us ts :=
  fun u hu t ht => (h t ht u hu).symm

theorem StartsIn.key_ne {file file' : Option String} {ts us : List Token} {s s' : Span}
    (h : StartsIn file ts s) (h' : StartsIn file' us s') (hapart : Apart ts us) :
    s.key ≠ s'.key := by
  obtain ⟨-, t, ht, hline, hcolumn⟩ := h
  obtain ⟨-, u, hu, hline', hcolumn'⟩ := h'
  intro heq
  simp only [Span.key, hline, hcolumn, hline', hcolumn', Option.getD_some, Prod.mk.injEq] at heq
  apply hapart t ht u hu
  cases hstart : t.start
  cases hstart' : u.start
  simp only [hstart, hstart'] at heq
  simp only [Position.mk.injEq]
  omega

/-- The places of a declaration: its parts start at `own` tokens, and the generic parameters of its
block at the tokens `head`. -/
structure Decl.Lies (file : Option String) (own head : List Token) (d : Decl) : Prop where
  spans : AllStartIn file own d.spans
  block : AllStartIn file head ((blockFindings d.block).map Finding.span)

variable {file : Option String}

theorem Decl.filter_diagnostics (types : List String) (d : Decl) (k : String × Int × Int) :
    (d.verdict types).diagnostics.filter (·.key = k) =
      ((d.verdict types).findings.filter (·.span.key = k)).map Finding.diagnostic := by
  rw [Verdict.diagnostics, List.filter_map]
  rfl

def Decl.findingsAt (types : List String) (d : Decl) (k : String × Int × Int) : List Finding :=
  (d.verdict types).findings.filter (·.span.key = k)

section

variable {types : List String} {d d' : Decl} {own own' head head' : List Token}
  {file' : Option String} {k : String × Int × Int}

def StartsAt (file : Option String) (ts : List Token) (k : String × Int × Int) : Prop :=
  ∃ s, StartsIn file ts s ∧ s.key = k

theorem StartsAt.not_apart {ts us : List Token} (h : StartsAt file ts k)
    (h' : StartsAt file' us k) (hapart : Apart ts us) : False := by
  obtain ⟨s, hs, hk⟩ := h
  obtain ⟨s', hs', hk'⟩ := h'
  exact hs.key_ne hs' hapart (hk.trans hk'.symm)

/-- A place is one of the declaration itself, or all findings there are on the block. -/
theorem Decl.Lies.findingsAt_cases (h : d.Lies file own head) (types : List String)
    (k : String × Int × Int) :
    StartsAt file own k ∨
      d.findingsAt types k = (blockFindings d.block).filter (·.span.key = k) ∧
        (d.findingsAt types k = [] ∨ StartsAt file head k) := by
  obtain ⟨before, after, heq, hbefore, hafter⟩ := d.findings_split types
  by_cases hown : ∃ f ∈ before ++ after, f.span.key = k
  · obtain ⟨f, hf, hk⟩ := hown
    exact Or.inl ⟨f.span, h.spans _ (hbefore.append hafter f hf), hk⟩
  · have hnil {fs : List Finding} (hsub : fs ⊆ before ++ after) :
        fs.filter (·.span.key = k) = [] := by
      simp only [List.filter_eq_nil_iff, decide_eq_true_eq]
      exact fun f hf hk => hown ⟨f, hsub hf, hk⟩
    have hblock : d.findingsAt types k = (blockFindings d.block).filter (·.span.key = k) := by
      rw [findingsAt, heq, List.filter_append, List.filter_append,
        hnil (List.subset_append_left _ _), hnil (List.subset_append_right _ _)]
      simp
    refine Or.inr ⟨hblock, ?_⟩
    rw [hblock]
    by_cases hhead : ∃ f ∈ blockFindings d.block, f.span.key = k
    · obtain ⟨f, hf, hk⟩ := hhead
      exact Or.inr ⟨f.span, h.block _ (List.mem_map_of_mem hf), hk⟩
    · left
      simp only [List.filter_eq_nil_iff, decide_eq_true_eq]
      exact fun f hf hk => hhead ⟨f, hf, hk⟩

/-- Two declarations without a place in common, or whose only common places are on the generic
parameters of one block. -/
theorem Decl.Lies.interchangeable (h : d.Lies file own head) (h' : d'.Lies file' own' head')
    (hown : Apart own own') (hhead : Apart own head') (hhead' : Apart head own')
    (hblock : Apart head head' ∨ d.block = d'.block) :
    Interchangeable (d.verdict types).diagnostics (d'.verdict types).diagnostics := by
  intro k
  rw [d.filter_diagnostics, d'.filter_diagnostics]
  simp only [List.map_eq_nil_iff]
  rcases h.findingsAt_cases types k with hk | ⟨hfs, hk⟩
  · rcases h'.findingsAt_cases types k with hk' | ⟨-, hk' | hk'⟩
    · exact (hk.not_apart hk' hown).elim
    · exact Or.inr (Or.inl hk')
    · exact (hk.not_apart hk' hhead).elim
  · rcases hk with hk | hk
    · exact Or.inl hk
    rcases h'.findingsAt_cases types k with hk' | ⟨hfs', hk' | hk'⟩
    · exact (hk.not_apart hk' hhead').elim
    · exact Or.inr (Or.inl hk')
    · rcases hblock with hapart | hblock
      · exact (hk.not_apart hk' hapart).elim
      · rw [findingsAt] at hfs hfs'
        rw [hfs, hfs', hblock]
        exact Or.inr (Or.inr rfl)

end

theorem ImplHeader.blockFindings_startIn (file : Option String) (b : Grammar.BlockTree) :
    AllStartIn file b.head.tokens
      ((blockFindings (some (ImplHeader.ofTree file b))).map Finding.span) := by
  intro s hs
  obtain ⟨f, hf, rfl⟩ := List.mem_map.1 hs
  obtain ⟨g, hg, rfl⟩ := List.mem_map.1 hf
  have hmem : g.span ∈ (GenericParam.listOf file b.head.generics).map GenericParam.span :=
    List.mem_map_of_mem (List.mem_filter.1 hg).1
  exact (GenericParam.spans_listOf file b.head.generics g.span hmem).startsIn.mono fun x hx => by
    simp [Grammar.BlockHead.tokens, hx]

theorem Decl.block_ofTree {block : Option ImplHeader} {attrs : List Grammar.AttrTree}
    {t : Grammar.MemberBody} {d : Decl} (h : Decl.ofTree file block attrs t = .ok d) :
    d.block = block := by
  obtain ⟨as, -, h⟩ := bind_eq_ok_iff.1 h
  cases t with
  | fn f =>
    obtain ⟨d', hd, h⟩ := bind_eq_ok_iff.1 h
    obtain ⟨params, -, hd⟩ := bind_eq_ok_iff.1 hd
    cases hd
    cases h
    rfl
  | const c =>
    cases h
    rfl

theorem Decl.lies_of_member {b : Grammar.BlockTree} {m : Grammar.MemberTree} {d : Decl}
    (h : Decl.ofTree file (some (ImplHeader.ofTree file b)) m.attrs m.body = .ok d) :
    d.Lies file m.tokens b.head.tokens := by
  refine ⟨(Decl.spans_ofTree h).allStartIn, ?_⟩
  rw [Decl.block_ofTree h]
  exact ImplHeader.blockFindings_startIn file b

theorem SourceItem.declarations_lie {t : ItemTree} {i : SourceItem}
    (h : SourceItem.ofTree file t = .ok i) {d : Decl} (hd : d ∈ i.declarations) :
    d.Lies file t.tokens t.tokens := by
  obtain ⟨m, d', hbody, rfl, hd'⟩ | ⟨b, block, hbody, rfl, hb⟩ := SourceItem.ofTree_cases h
  · obtain rfl := List.mem_singleton.1 hd
    refine ⟨?_, ?_⟩
    · rw [ItemTree.tokens, hbody]
      exact (Decl.spans_ofTree hd').allStartIn
    · rw [Decl.block_ofTree hd']
      exact allStartIn_nil
  · obtain ⟨m, hm, hd⟩ := exists_of_mem_mapM hb.members hd
    rw [hb.header] at hd
    have hlies := Decl.lies_of_member hd
    have hsub : m.tokens ⊆ b.members.flatMap Grammar.MemberTree.tokens :=
      fun x hx => List.mem_flatMap.2 ⟨m, hm, hx⟩
    rw [ItemTree.tokens, hbody]
    exact ⟨hlies.spans.mono fun x hx => by
        simp [Grammar.ItemBody.tokens, Grammar.BlockTree.tokens, hsub hx],
      hlies.block.mono fun x hx => by simp [Grammar.ItemBody.tokens, Grammar.BlockTree.tokens, hx]⟩

def Increasing (ts : List Token) : Prop :=
  ts.Pairwise fun a b => a.start.Before b.start

theorem Increasing.apart {ts us : List Token} (h : Increasing (ts ++ us)) : Apart ts us :=
  fun t ht u hu => ((List.pairwise_append.1 h).2.2 t ht u hu).ne

theorem Increasing.flatMap_apart {α : Type} {spell : α → List Token} {as : List α}
    (h : Increasing (as.flatMap spell)) : as.Pairwise fun a b => Apart (spell a) (spell b) :=
  (List.pairwise_flatMap.1 h).2.imp fun h t ht u hu => (h t ht u hu).ne

variable {types : List String}

theorem SourceItem.pairwise_interchangeable {t : ItemTree} {i : SourceItem}
    (h : SourceItem.ofTree file t = .ok i) (hts : Increasing t.tokens) :
    i.declarations.Pairwise fun d d' =>
      Interchangeable (d.verdict types).diagnostics (d'.verdict types).diagnostics := by
  obtain ⟨m, d, -, rfl, -⟩ | ⟨b, block, hbody, rfl, hb⟩ := SourceItem.ofTree_cases h
  · exact List.pairwise_singleton _ _
  · have hdecls := hb.members
    rw [hb.header] at hdecls
    have htokens : Increasing (b.head.tokens ++ b.members.flatMap Grammar.MemberTree.tokens) := by
      rw [ItemTree.tokens, hbody] at hts
      exact hts.sublist (((List.sublist_append_left _ _).trans (List.sublist_append_right _ _)))
    have hhead {m : Grammar.MemberTree} (hm : m ∈ b.members) : Apart b.head.tokens m.tokens :=
      fun x hx y hy => htokens.apart x hx y (List.mem_flatMap.2 ⟨m, hm, hy⟩)
    have hmembers' : b.members.Pairwise fun m m' => Apart m.tokens m'.tokens ∧
        Apart m.tokens b.head.tokens ∧ Apart b.head.tokens m'.tokens :=
      (Increasing.flatMap_apart (List.pairwise_append.1 htokens).2.1).imp_of_mem
        fun hm hm' hapart => ⟨hapart, (hhead hm).symm, hhead hm'⟩
    refine pairwise_of_mapM ?_ hdecls hmembers'
    rintro m d m' d' hd hd' ⟨hown, hbefore, hafter⟩
    refine (Decl.lies_of_member hd).interchangeable (Decl.lies_of_member hd') hown hbefore hafter ?_
    exact Or.inr ((Decl.block_ofTree hd).trans (Decl.block_ofTree hd').symm)

theorem SourceFile.interchangeable_of_parse {text : String} {f : SourceFile}
    (h : SourceFile.parse text file = .ok f) {d d' : Decl} (hd : d ∈ f.declarations)
    (hd' : d' ∈ f.declarations) :
    Interchangeable (d.verdict types).diagnostics (d'.verdict types).diagnostics := by
  obtain ⟨ts, s, p, items, hreads, -, hitemTokens, hitems⟩ := exists_reads_of_parse h
  have htokens : Increasing (items.flatMap ItemTree.tokens) := by
    rw [hitemTokens]
    exact hreads.inOrder.2.starts
  have hpairs : f.declarations.Pairwise fun d d' =>
      Interchangeable (d.verdict types).diagnostics (d'.verdict types).diagnostics := by
    rw [declarations, List.pairwise_flatMap]
    constructor
    · intro i hi
      obtain ⟨t, ht, hi⟩ := exists_of_mem_mapM hitems hi
      exact SourceItem.pairwise_interchangeable hi ((List.pairwise_flatMap.1 htokens).1 t ht)
    · refine pairwise_of_mapM ?_ hitems htokens.flatMap_apart
      intro t i t' i' hi hi' hapart d hd d' hd'
      exact (SourceItem.declarations_lie hi hd).interchangeable
        (SourceItem.declarations_lie hi' hd') hapart hapart hapart (Or.inl hapart)
  have hself (d : Decl) (_ : d ∈ f.declarations) :
      Interchangeable (d.verdict types).diagnostics (d.verdict types).diagnostics :=
    .refl _
  exact List.Pairwise.forall_of_forall_of_flip hself hpairs (hpairs.imp fun h => h.symm) hd hd'

theorem SourceFile.diagnostics_file {text : String} {f : SourceFile}
    (h : SourceFile.parse text file = .ok f) {d : Decl} (hd : d ∈ f.declarations)
    {x : Diagnostic} (hx : x ∈ (d.verdict types).diagnostics) : x.span.file = file := by
  obtain ⟨ts, s, p, items, -, -, -, hitems⟩ := exists_reads_of_parse h
  obtain ⟨i, hi, hd⟩ := List.mem_flatMap.1 hd
  obtain ⟨t, -, hi⟩ := exists_of_mem_mapM hitems hi
  have hlies := SourceItem.declarations_lie hi hd
  obtain ⟨before, after, heq, hbefore, hafter⟩ := d.findings_split types
  obtain ⟨f, hf, rfl⟩ := List.mem_map.1 hx
  rw [heq, List.mem_append, List.mem_append] at hf
  rcases hf with (hf | hf) | hf
  · exact (hlies.spans _ (hbefore f hf)).1
  · exact (hlies.block _ (List.mem_map_of_mem hf)).1
  · exact (hlies.spans _ (hafter f hf)).1

theorem interchangeable_of_files_ne {as bs : List Diagnostic} {name name' : String}
    (has : ∀ a ∈ as, a.span.file = some name) (hbs : ∀ b ∈ bs, b.span.file = some name')
    (hne : name ≠ name') : Interchangeable as bs := by
  intro k
  by_cases hk : k.1 = name
  · right; left
    simp only [List.filter_eq_nil_iff, decide_eq_true_eq]
    rintro b hb rfl
    exact hne (hk.symm.trans (by simp [Diagnostic.key, hbs b hb]))
  · left
    simp only [List.filter_eq_nil_iff, decide_eq_true_eq]
    rintro a ha rfl
    exact hk (by simp [Diagnostic.key, has a ha])

end NativeBinding
