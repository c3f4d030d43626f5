import NativeBinding.Decl.Parse
import NativeBinding.Proofs.Except
import NativeBinding.Proofs.Grammar.Words
import NativeBinding.Proofs.Decl.Spans

/-!
Where the declarations of a parsed text come from: each from one tree of a function or constant,
whose lexemes stand in the text. So the names that it declares are identifiers, and each loses at
most one raw mark.
-/

namespace NativeBinding

namespace Grammar

theorem Reads.exists_scan {s s' : State} {p p' : Position} {cs cs' : List Char} {ts : List Token}
    (h : Reads s p cs ts s' p' cs') {t : Token} (ht : t ∈ ts) :
    ∃ (s₁ : State) (ds : List Char) (n : Nat),
      scan s₁.expects ds = .lexeme t.kind n ∧ t.text.toList = ds.take n := by
  induction h with
  | done => cases ht
  | gap _ _ ih => exact ih ht
  | @lexeme s _ _ p _ cs _ _ kind n hscan _ _ ih =>
    rcases List.mem_cons.1 ht with rfl | ht
    · exact ⟨s, cs, n, hscan, String.toList_ofList⟩
    · exact ih ht

theorem Reads.text_spec {s s' : State} {p p' : Position} {cs cs' : List Char} {ts : List Token}
    (h : Reads s p cs ts s' p' cs') {t : Token} (ht : t ∈ ts) :
    ∃ ds n, t.kind.lexemeLength ds = some n ∧ t.text.toList = ds.take n := by
  obtain ⟨s₁, ds, n, hscan, htext⟩ := h.exists_scan ht
  exact ⟨ds, n, (scan_lexeme_kind hscan).2, htext⟩

theorem Reads.isIdent {s s' : State} {p p' : Position} {cs cs' : List Char} {ts : List Token}
    (h : Reads s p cs ts s' p' cs') {l : Lexeme .ident} (hl : ⟨.ident, l⟩ ∈ ts) :
    IsIdent l.text.toList := by
  obtain ⟨ds, n, hlength, htext⟩ := h.text_spec hl
  rw [show l.text.toList = ds.take n from htext]
  exact isIdent_take hlength

def ItemTree.members (t : ItemTree) : List (Option BlockTree × List AttrTree × MemberBody) :=
  match t.body with
  | .member m => [(none, t.attrs, m)]
  | .block b => b.members.map fun m => (some b, m.attrs, m.body)

theorem ItemTree.tokens_of_member {t : ItemTree} {b : Option BlockTree} {attrs : List AttrTree}
    {m : MemberBody} (h : (b, attrs, m) ∈ t.members) :
    (attrs.flatMap AttrTree.tokens ++ m.tokens) <:+: t.tokens := by
  rw [members] at h
  split at h
  · next m' hbody =>
    cases List.mem_singleton.1 h
    rw [ItemTree.tokens, hbody]
    exact List.infix_refl _
  · next b hbody =>
    obtain ⟨member, hmember, heq⟩ := List.mem_map.1 h
    cases heq
    have hinfix : member.tokens <:+: b.members.flatMap MemberTree.tokens :=
      tokens_infix_flatMap hmember
    refine hinfix.trans ?_
    rw [ItemTree.tokens, hbody, ItemBody.tokens, BlockTree.tokens, ← List.append_assoc,
      ← List.append_assoc]
    exact List.infix_append _ _ _

theorem ItemTree.infix_of_member {items : List ItemTree} {t : ItemTree} (ht : t ∈ items)
    {b : Option BlockTree} {attrs : List AttrTree} {m : MemberBody}
    (h : (b, attrs, m) ∈ t.members) :
    m.tokens <:+: items.flatMap ItemTree.tokens :=
  (List.suffix_append _ _).isInfix.trans ((tokens_of_member h).trans (tokens_infix_flatMap ht))

end Grammar

open Grammar (AttrTree IsIdent IsName ItemTree Lexeme Reads State Token)

variable {file : Option String}

structure ImplBlock.OfTree (file : Option String) (attrs : List AttrTree) (t : Grammar.BlockTree)
    (b : ImplBlock) : Prop where
  attrs : attrs.mapM (Attribute.ofTree file) = .ok b.attrs
  members : t.members.mapM (fun m => Decl.ofTree file (some b.header) m.attrs m.body) =
    .ok b.members
  header : b.header = ImplHeader.ofTree file t
  span : b.span = Grammar.spanOf file t.tokens

theorem SourceItem.ofTree_cases {t : ItemTree} {i : SourceItem}
    (h : SourceItem.ofTree file t = .ok i) :
    (∃ m d, t.body = .member m ∧ i = .decl d ∧ Decl.ofTree file none t.attrs m = .ok d) ∨
      ∃ u b, t.body = .block u ∧ i = .block b ∧ b.OfTree file t.attrs u := by
  rw [SourceItem.ofTree] at h
  split at h
  · next m hbody =>
    obtain ⟨d, hd, h⟩ := bind_eq_ok_iff.1 h
    cases h
    exact Or.inl ⟨m, d, hbody, rfl, hd⟩
  · next u hbody =>
    obtain ⟨attrs, hattrs, h⟩ := bind_eq_ok_iff.1 h
    obtain ⟨members, hmembers, h⟩ := bind_eq_ok_iff.1 h
    cases h
    exact Or.inr ⟨u, _, hbody, rfl, hattrs, hmembers, rfl, rfl⟩

theorem SourceItem.mapM_members {t : ItemTree} {i : SourceItem}
    (h : SourceItem.ofTree file t = .ok i) :
    (t.members.mapM fun m => Decl.ofTree file (m.1.map (ImplHeader.ofTree file)) m.2.1 m.2.2) =
      .ok i.declarations := by
  obtain ⟨m, d, hbody, rfl, hd⟩ | ⟨u, b, hbody, rfl, hb⟩ := ofTree_cases h
  · simp [ItemTree.members, hbody, hd, declarations, bind, Except.bind, pure, Except.pure]
  · have hmembers := hb.members
    rw [hb.header] at hmembers
    simp only [ItemTree.members, hbody, List.mapM_map]
    exact hmembers

theorem SourceItem.exists_member {t : ItemTree} {i : SourceItem}
    (h : SourceItem.ofTree file t = .ok i) {d : Decl} (hd : d ∈ i.declarations) :
    ∃ b attrs m, (b, attrs, m) ∈ t.members ∧
      Decl.ofTree file (b.map (ImplHeader.ofTree file)) attrs m = .ok d := by
  obtain ⟨⟨b, attrs, m⟩, hm, hd⟩ := exists_of_mem_mapM (mapM_members h) hd
  exact ⟨b, attrs, m, hm, hd⟩

namespace SourceFile

theorem parse_eq_ok_iff {text : String} {f : SourceFile} : SourceFile.parse text file = .ok f ↔
    ∃ items, Grammar.read text.toList = .ok items ∧ SourceFile.ofTrees file items = .ok f := by
  rw [SourceFile.parse]
  cases Grammar.read text.toList with
  | error e => simp
  | ok items => cases h : SourceFile.ofTrees file items <;> simp [Except.mapError, h]

theorem ofTrees_eq_ok_iff {items : List ItemTree} {f : SourceFile} :
    SourceFile.ofTrees file items = .ok f ↔
      items.mapM (SourceItem.ofTree file) = .ok f.items ∧ f.file = file := by
  rw [ofTrees, bind_eq_ok_iff]
  constructor
  · rintro ⟨is, his, h⟩
    cases h
    exact ⟨his, rfl⟩
  · rintro ⟨hitems, rfl⟩
    exact ⟨f.items, hitems, rfl⟩

theorem exists_reads_of_parse {text : String} {f : SourceFile}
    (h : SourceFile.parse text file = .ok f) :
    ∃ ts s p items, Reads .start .start (Body.mask text.toList) ts s p [] ∧
      s.finish? = some items ∧ items.flatMap ItemTree.tokens = ts ∧
      items.mapM (SourceItem.ofTree file) = .ok f.items := by
  obtain ⟨items, hread, htrees⟩ := parse_eq_ok_iff.1 h
  obtain ⟨ts, s, p, hreads, hfinish⟩ := Grammar.readMasked_eq_ok_iff.1 hread
  exact ⟨ts, s, p, items, hreads, hfinish, hreads.items_tokens hfinish,
    (ofTrees_eq_ok_iff.1 htrees).1⟩

theorem exists_member {items : List ItemTree} {f : SourceFile}
    (hitems : items.mapM (SourceItem.ofTree file) = .ok f.items) {d : Decl}
    (hd : d ∈ f.declarations) :
    ∃ t ∈ items, ∃ b attrs m, (b, attrs, m) ∈ t.members ∧
      Decl.ofTree file (b.map (ImplHeader.ofTree file)) attrs m = .ok d := by
  obtain ⟨i, hi, hd⟩ := List.mem_flatMap.1 hd
  obtain ⟨t, ht, hi⟩ := exists_of_mem_mapM hitems hi
  exact ⟨t, ht, SourceItem.exists_member hi hd⟩

theorem exists_declaration {items : List ItemTree} {f : SourceFile}
    (hitems : items.mapM (SourceItem.ofTree file) = .ok f.items) {t : ItemTree} (ht : t ∈ items)
    {b : Option Grammar.BlockTree} {attrs : List AttrTree} {m : Grammar.MemberBody}
    (hm : (b, attrs, m) ∈ t.members) :
    ∃ d ∈ f.declarations, Decl.ofTree file (b.map (ImplHeader.ofTree file)) attrs m = .ok d := by
  obtain ⟨i, hi, hof⟩ := exists_mem_of_mapM hitems ht
  obtain ⟨d, hd, hof⟩ := exists_mem_of_mapM (SourceItem.mapM_members hof) hm
  exact ⟨d, List.mem_flatMap.2 ⟨i, hi, hd⟩, hof⟩

end SourceFile

theorem isName_unraw {name : String} (h : IsIdent name.toList) : IsName (unraw name).toList := by
  rw [unraw]
  rcases h with hplain | ⟨rest, hraw, hrest⟩
  · split
    · next rest heq => exact absurd heq (hplain.ne_raw rest)
    · exact hplain
  · rw [hraw]
    simpa using hrest

theorem unraw_eq_self {name : String} (h : IsName name.toList) : unraw name = name := by
  rw [unraw]
  split
  · next rest heq => exact absurd heq (h.ne_raw rest)
  · rfl

theorem unraw_unraw {name : String} (h : IsIdent name.toList) : unraw (unraw name) = unraw name :=
  unraw_eq_self (isName_unraw h)

theorem SourceFile.exists_tree_of_parse {text : String} {f : SourceFile}
    (h : SourceFile.parse text file = .ok f) {d : Decl} (hd : d ∈ f.declarations) :
    ∃ b attrs m, Decl.ofTree file b attrs m = .ok d ∧ ∀ l : Lexeme .ident,
      ⟨.ident, l⟩ ∈ attrs.flatMap AttrTree.tokens ++ m.tokens → IsIdent l.text.toList := by
  obtain ⟨ts, s, q, items, hreads, -, htokens, hitems⟩ := exists_reads_of_parse h
  obtain ⟨t, ht, b, attrs, m, hm, hd⟩ := exists_member hitems hd
  refine ⟨_, attrs, m, hd, fun l hl => hreads.isIdent ?_⟩
  rw [← htokens]
  exact List.mem_flatMap.2 ⟨t, ht, (ItemTree.tokens_of_member hm).subset hl⟩

theorem Param.name_ofTree {t : Grammar.ParamTree} {p : TypedParam}
    (h : Param.ofTree file t = .ok (.typed p)) {name : String} {mutable : Bool}
    (hname : p.pattern = .name name mutable) :
    ∃ l : Lexeme .ident, l.text = name ∧ ⟨.ident, l⟩ ∈ t.tokens := by
  obtain ⟨attrs, -, h⟩ := bind_eq_ok_iff.1 h
  cases hbody : t.body with
  | receiver s => simp [hbody, pure, Except.pure] at h
  | typed pattern colon type =>
    rw [hbody] at h
    cases h
    cases pattern with
    | name mutable l =>
      refine ⟨l, by simpa using (Pattern.name.inj hname).1, ?_⟩
      simp [Grammar.ParamTree.tokens, hbody, Grammar.ParamBody.tokens, Grammar.PatternTree.tokens,
        Lexeme.token]
    | _ => cases hname

section

variable {text : String} {f : SourceFile}

theorem FnDecl.isIdent_of_parse (h : SourceFile.parse text file = .ok f) {d : FnDecl}
    (hd : .fn d ∈ f.declarations) : IsIdent d.name.toList ∧
      ∀ {p name mutable}, .typed p ∈ d.params → p.pattern = .name name mutable →
        IsIdent name.toList := by
  obtain ⟨b, attrs, m, hd, hident⟩ := SourceFile.exists_tree_of_parse h hd
  obtain ⟨as, -, hd⟩ := bind_eq_ok_iff.1 hd
  cases m with
  | const c => cases hd
  | fn tree =>
    obtain ⟨d', hd', hd⟩ := bind_eq_ok_iff.1 hd
    cases hd
    obtain ⟨params, hparams, hd'⟩ := bind_eq_ok_iff.1 hd'
    cases hd'
    constructor
    · apply hident
      simp [Grammar.MemberBody.tokens, Grammar.FnTree.tokens, Lexeme.token]
    · intro p name mutable hp hname
      obtain ⟨pt, hpt, hof⟩ := exists_of_mem_mapM hparams hp
      obtain ⟨l, rfl, hl⟩ := Param.name_ofTree hof hname
      have hsub : pt.tokens ⊆ tree.params.tokens Grammar.ParamTree.tokens :=
        Grammar.Group.tokens_subset hpt
      apply hident
      simp [Grammar.MemberBody.tokens, Grammar.FnTree.tokens, hsub hl]

theorem AttrPath.isIdent_ofTree {r : Grammar.Route} {ts : List Token}
    (hident : ∀ l : Lexeme .ident, ⟨.ident, l⟩ ∈ ts → IsIdent l.text.toList)
    (hr : r.tokens ⊆ ts) {s : String} (hs : s ∈ (AttrPath.ofTree file r).segments) :
    IsIdent s.toList := by
  obtain ⟨l, hl, rfl⟩ := List.mem_map.1 hs
  exact hident l (hr (Grammar.Chain.tokens_subset hl List.mem_cons_self))

theorem Attribute.isIdent_ofTree {t : AttrTree} {a : Attribute}
    (h : Attribute.ofTree file t = .ok a)
    (hident : ∀ l : Lexeme .ident, ⟨.ident, l⟩ ∈ t.tokens → IsIdent l.text.toList)
    {args : List AttrArg} (hform : a.form = .list args) {p : AttrPath} (hp : .path p ∈ args)
    {s : String} (hs : s ∈ p.segments) : IsIdent s.toList := by
  cases t with
  | doc l =>
    cases h
    cases hform
  | written hash bang opens content closes =>
    cases content with
    | word r =>
      cases h
      cases hform
    | value r eq value =>
      obtain ⟨l, -, h⟩ := bind_eq_ok_iff.1 h
      cases h
      cases hform
    | list r items =>
      obtain ⟨args', hargs, h⟩ := bind_eq_ok_iff.1 h
      cases h
      cases hform
      obtain ⟨item, hitem, hof⟩ := exists_of_mem_mapM hargs hp
      cases item with
      | route r =>
        cases hof
        have hsub : (Grammar.MetaItem.route r).tokens ⊆ items.tokens Grammar.MetaItem.tokens :=
          Grammar.Group.tokens_subset hitem
        refine AttrPath.isIdent_ofTree hident (fun x hx => ?_) hs
        have hmem : x ∈ items.tokens Grammar.MetaItem.tokens := hsub hx
        simp [AttrTree.tokens, Grammar.Meta.tokens, hmem]
      | assign r eq value =>
        obtain ⟨l, -, hof⟩ := bind_eq_ok_iff.1 hof
        cases hof
      | literal value =>
        obtain ⟨l, -, hof⟩ := bind_eq_ok_iff.1 hof
        cases hof

theorem Decl.isIdent_segment_of_parse (h : SourceFile.parse text file = .ok f) {d : Decl}
    (hd : d ∈ f.declarations) {a : Attribute} (ha : a ∈ d.attrs) {args : List AttrArg}
    (hform : a.form = .list args) {p : AttrPath} (hp : .path p ∈ args) {s : String}
    (hs : s ∈ p.segments) : IsIdent s.toList := by
  obtain ⟨b, attrs, m, hd, hident⟩ := SourceFile.exists_tree_of_parse h hd
  obtain ⟨t, ht, hof⟩ := exists_of_mem_mapM (Decl.ofTree_spec hd).attrs ha
  refine Attribute.isIdent_ofTree hof (fun l hl => hident l ?_) hform hp hs
  exact List.mem_append_left _ (List.mem_flatMap.2 ⟨t, ht, hl⟩)

end

end NativeBinding
