import NativeBinding.Decl.OfTree
import NativeBinding.Proofs.Except

/-!
Where the spans of a declaration are. `Decl.spans` lists the spans of a declaration and of its
parts, without those of the block around it. Each is the range of some tokens of the declaration or
of its attributes. So it starts where one of them starts, and no two declarations of a file have a
place in common.
-/

namespace NativeBinding

open Grammar (Token)

def TypeExpr.spans (t : TypeExpr) : List Span :=
  t.parts.map TypeExpr.span

def AttrArg.spans : AttrArg → List Span
  | path p => [p.span]
  | assign name value span => [name.span, value.span, span]
  | literal l => [l.span]

def AttrForm.spans : AttrForm → List Span
  | word => []
  | list args => args.flatMap AttrArg.spans
  | value l => [l.span]

def Attribute.spans (a : Attribute) : List Span :=
  a.span :: a.path.span :: a.form.spans

def Param.spans : Param → List Span
  | self p => [p.span]
  | typed p => p.span :: p.type.spans

def FnDecl.spans (d : FnDecl) : List Span :=
  d.span :: d.nameSpan :: d.asyncSpan.toList ++ d.attrs.flatMap Attribute.spans ++
    d.params.flatMap Param.spans ++ (d.result.map TypeExpr.spans).getD [] ++
    d.generics.map GenericParam.span

def ConstDecl.spans (d : ConstDecl) : List Span :=
  d.span :: d.nameSpan :: d.attrs.flatMap Attribute.spans ++ d.type.spans

def Decl.spans : Decl → List Span
  | fn d => d.spans
  | const d => d.spans

def FnDecl.innerSpans (d : FnDecl) : List Span :=
  d.nameSpan :: d.asyncSpan.toList ++ d.params.flatMap Param.spans ++
    (d.result.map TypeExpr.spans).getD [] ++ d.generics.map GenericParam.span

def ConstDecl.innerSpans (d : ConstDecl) : List Span :=
  d.nameSpan :: d.type.spans

def Decl.innerSpans : Decl → List Span
  | fn d => d.innerSpans
  | const d => d.innerSpans

theorem Decl.mem_spans {d : Decl} {s : Span} (h : s ∈ d.spans) :
    s = d.span ∨ s ∈ d.attrs.flatMap Attribute.spans ∨ s ∈ d.innerSpans := by
  cases d with
  | fn d =>
    simp only [spans, FnDecl.spans, List.cons_append, List.mem_cons, List.mem_append] at h
    simp only [innerSpans, FnDecl.innerSpans, List.cons_append, List.mem_cons, List.mem_append]
    grind [span, attrs]
  | const d =>
    simp only [spans, ConstDecl.spans, List.cons_append, List.mem_cons, List.mem_append] at h
    simp only [innerSpans, ConstDecl.innerSpans, List.mem_cons]
    grind [span, attrs]

/-- A span of `file` that starts where one of `ts` starts. -/
def StartsIn (file : Option String) (ts : List Token) (s : Span) : Prop :=
  s.file = file ∧
    ∃ t ∈ ts, s.line = some (t.start.line : Int) ∧ s.column = some (t.start.column : Int)

/-- A span of `file` over some of `ts`, from the first of them to the last. -/
def SpansIn (file : Option String) (ts : List Token) (s : Span) : Prop :=
  ∃ us, us ≠ [] ∧ us.Sublist ts ∧ s = Grammar.spanOf file us

variable {file : Option String} {ts us : List Token} {s : Span}

theorem StartsIn.mono (h : StartsIn file ts s) (hsub : ts ⊆ us) : StartsIn file us s := by
  obtain ⟨hfile, t, ht, hplace⟩ := h
  exact ⟨hfile, t, hsub ht, hplace⟩

theorem SpansIn.mono (h : SpansIn file ts s) (hsub : ts.Sublist us) : SpansIn file us s := by
  obtain ⟨vs, hne, hvs, hspan⟩ := h
  exact ⟨vs, hne, hvs.trans hsub, hspan⟩

theorem SpansIn.startsIn (h : SpansIn file ts s) : StartsIn file ts s := by
  obtain ⟨vs, hne, hvs, rfl⟩ := h
  cases vs with
  | nil => exact absurd rfl hne
  | cons v vs => exact ⟨rfl, v, hvs.subset List.mem_cons_self, rfl, rfl⟩

theorem spansIn_spanOf (file : Option String) (h : ts ≠ []) :
    SpansIn file ts (Grammar.spanOf file ts) :=
  ⟨ts, h, List.Sublist.refl ts, rfl⟩

theorem Grammar.Lexeme.span_spansIn {kind : Grammar.Terminal} (l : Grammar.Lexeme kind) :
    SpansIn file l.token (l.span file) :=
  spansIn_spanOf file (List.cons_ne_nil _ _)

def AllStartIn (file : Option String) (ts : List Token) (spans : List Span) : Prop :=
  ∀ s ∈ spans, StartsIn file ts s

def AllSpanIn (file : Option String) (ts : List Token) (spans : List Span) : Prop :=
  ∀ s ∈ spans, SpansIn file ts s

section

variable {spans spans' : List Span}

theorem AllStartIn.mono (h : AllStartIn file ts spans) (hsub : ts ⊆ us) :
    AllStartIn file us spans :=
  fun s hs => (h s hs).mono hsub

@[simp] theorem allStartIn_nil : AllStartIn file ts [] := by
  simp [AllStartIn]

theorem AllSpanIn.mono (h : AllSpanIn file ts spans) (hsub : ts.Sublist us) :
    AllSpanIn file us spans :=
  fun s hs => (h s hs).mono hsub

theorem AllSpanIn.allStartIn (h : AllSpanIn file ts spans) : AllStartIn file ts spans :=
  fun s hs => (h s hs).startsIn

@[simp] theorem allSpanIn_nil : AllSpanIn file ts [] := by
  simp [AllSpanIn]

@[simp] theorem allSpanIn_cons :
    AllSpanIn file ts (s :: spans) ↔ SpansIn file ts s ∧ AllSpanIn file ts spans := by
  simp [AllSpanIn]

@[simp] theorem allSpanIn_append :
    AllSpanIn file ts (spans ++ spans') ↔ AllSpanIn file ts spans ∧ AllSpanIn file ts spans' := by
  simp [AllSpanIn, or_imp, forall_and]

end

namespace Grammar

theorem PathTree.tokens_ne_nil (p : PathTree) : p.tokens ≠ [] := by
  cases p with
  | one s => cases s <;> simp [PathTree.tokens, SegmentTree.tokens, Lexeme.token]
  | more front sep s => simp [PathTree.tokens, Lexeme.token]

theorem TypeTree.tokens_ne_nil (t : TypeTree) : t.tokens ≠ [] := by
  cases t with
  | path p => exact p.tokens_ne_nil
  | object word bounds => cases word <;> simp [TypeTree.tokens, ObjectWord.tokens, Lexeme.token]
  | _ => simp [TypeTree.tokens, Lexeme.token]

end Grammar

theorem TypeExpr.partsAll_append (as bs : List TypeExpr) :
    partsAll (as ++ bs) = partsAll as ++ partsAll bs := by
  induction as with
  | nil => rfl
  | cons a as ih => simp [partsAll, ih]

def TypeExpr.spansAll (ts : List TypeExpr) : List Span :=
  (partsAll ts).map TypeExpr.span

@[simp] theorem TypeExpr.spansAll_nil : spansAll [] = [] := rfl

@[simp] theorem TypeExpr.spansAll_singleton (t : TypeExpr) : spansAll [t] = t.spans := by
  simp [spansAll, partsAll, spans]

@[simp] theorem TypeExpr.spansAll_append (as bs : List TypeExpr) :
    spansAll (as ++ bs) = spansAll as ++ spansAll bs := by
  simp [spansAll, partsAll_append]

open Grammar in
mutual

theorem TypeExpr.spans_ofTree (file : Option String) (t : TypeTree) :
    AllSpanIn file t.tokens (TypeExpr.ofTree file t).spans := by
  have hself := spansIn_spanOf file t.tokens_ne_nil
  cases t with
  | path p =>
    have hargs := TypeExpr.spans_argsOfPath file p
    rw [ofTree, spans, parts, List.map_cons, allSpanIn_cons]
    exact ⟨hself, hargs⟩
  | ref amp life mutable target =>
    have htarget := TypeExpr.spans_ofTree file target
    rw [ofTree, spans, parts, List.map_cons, allSpanIn_cons]
    exact ⟨hself, htarget.mono (by grind [TypeTree.tokens])⟩
  | tuple opens items trailing closes =>
    have hitems := TypeExpr.spans_ofList file items
    rw [ofTree, spans, parts, List.map_cons, allSpanIn_cons]
    exact ⟨hself, hitems.mono (by grind [TypeTree.tokens])⟩
  | slice opens item closes | array opens item semi length closes =>
    have hitem := TypeExpr.spans_ofTree file item
    rw [ofTree, spans, parts, List.map_cons, allSpanIn_cons]
    exact ⟨hself, hitem.mono (by grind [TypeTree.tokens])⟩
  | object word bounds =>
    have hbounds := TypeExpr.spans_ofBounds file bounds
    rw [ofTree, spans, parts, List.map_cons, allSpanIn_cons]
    exact ⟨hself, hbounds.mono (by grind [TypeTree.tokens])⟩
  | unit opens closes =>
    rw [ofTree, spans, parts, List.map_cons, allSpanIn_cons]
    exact ⟨hself, allSpanIn_nil⟩
  | inferred l =>
    rw [ofTree, spans, parts, List.map_cons, allSpanIn_cons]
    exact ⟨hself, allSpanIn_nil⟩

theorem TypeExpr.spans_ofList (file : Option String) (ts : TypeList) :
    AllSpanIn file ts.tokens (spansAll (TypeExpr.ofList file ts)) := by
  cases ts with
  | one t =>
    have ht := TypeExpr.spans_ofTree file t
    simpa [ofList, TypeList.tokens] using ht
  | more front sep t =>
    have hfront := TypeExpr.spans_ofList file front
    have ht := TypeExpr.spans_ofTree file t
    simp only [ofList, spansAll_append, spansAll_singleton, allSpanIn_append]
    exact ⟨hfront.mono (by grind [TypeList.tokens]),
      ht.mono (by grind [TypeList.tokens])⟩

theorem TypeExpr.spans_argsOfPath (file : Option String) (p : PathTree) :
    AllSpanIn file p.tokens (spansAll (TypeExpr.argsOfPath file p)) := by
  cases p with
  | one s => exact TypeExpr.spans_argsOfSegment file s
  | more front sep s =>
    have hfront := TypeExpr.spans_argsOfPath file front
    have hs := TypeExpr.spans_argsOfSegment file s
    simp only [argsOfPath, spansAll_append, allSpanIn_append]
    exact ⟨hfront.mono (by grind [PathTree.tokens]),
      hs.mono (by grind [PathTree.tokens])⟩

theorem TypeExpr.spans_argsOfSegment (file : Option String) (s : SegmentTree) :
    AllSpanIn file s.tokens (spansAll (TypeExpr.argsOfSegment file s)) := by
  cases s with
  | plain name => exact allSpanIn_nil
  | generic name opens args trailing closes =>
    have hargs := TypeExpr.spans_ofArgs file args
    exact hargs.mono (by grind [SegmentTree.tokens])

theorem TypeExpr.spans_ofArgs (file : Option String) (args : ArgList) :
    AllSpanIn file args.tokens (spansAll (TypeExpr.ofArgs file args)) := by
  cases args with
  | one a => exact TypeExpr.spans_ofArg file a
  | more front sep a =>
    have hfront := TypeExpr.spans_ofArgs file front
    have ha := TypeExpr.spans_ofArg file a
    simp only [ofArgs, spansAll_append, allSpanIn_append]
    exact ⟨hfront.mono (by grind [ArgList.tokens]),
      ha.mono (by grind [ArgList.tokens])⟩

theorem TypeExpr.spans_ofArg (file : Option String) (a : ArgTree) :
    AllSpanIn file a.tokens (spansAll (TypeExpr.ofArg file a)) := by
  cases a with
  | type t =>
    have ht := TypeExpr.spans_ofTree file t
    simpa [ofArg, ArgTree.tokens] using ht
  | lifetime l => exact allSpanIn_nil

theorem TypeExpr.spans_ofBounds (file : Option String) (bounds : BoundList) :
    AllSpanIn file bounds.tokens (spansAll (TypeExpr.ofBounds file bounds)) := by
  cases bounds with
  | one b => exact TypeExpr.spans_ofBound file b
  | more front sep b =>
    have hfront := TypeExpr.spans_ofBounds file front
    have hb := TypeExpr.spans_ofBound file b
    simp only [ofBounds, spansAll_append, allSpanIn_append]
    exact ⟨hfront.mono (by grind [BoundList.tokens]),
      hb.mono (by grind [BoundList.tokens])⟩

theorem TypeExpr.spans_ofBound (file : Option String) (b : BoundTree) :
    AllSpanIn file b.tokens (spansAll (TypeExpr.ofBound file b)) := by
  cases b with
  | path p =>
    have hself := spansIn_spanOf file p.tokens_ne_nil
    have hargs := TypeExpr.spans_argsOfPath file p
    simp only [ofBound, spansAll_singleton, spans, parts, List.map_cons, allSpanIn_cons]
    exact ⟨hself, hargs⟩
  | lifetime l => exact allSpanIn_nil

end

namespace Grammar

theorem Chain.tokens_ne_nil {mark : Terminal} {α : Type} {spell : α → List Token}
    (h : ∀ a, spell a ≠ []) (c : Chain mark α) : c.tokens spell ≠ [] := by
  cases c <;> simp [Chain.tokens, h]

theorem Route.tokens_ne_nil (r : Route) : r.tokens ≠ [] :=
  Chain.tokens_ne_nil (fun _ => List.cons_ne_nil _ _) r

theorem Chain.tokens_sublist {mark : Terminal} {α : Type} {spell : α → List Token}
    {c : Chain mark α} {a : α} (h : a ∈ c.toList) : (spell a).Sublist (c.tokens spell) := by
  induction c with
  | one b =>
    obtain rfl := List.mem_singleton.1 h
    exact List.Sublist.refl _
  | more front sep b ih =>
    rcases List.mem_append.1 h with hfront | hlast
    · exact (ih hfront).trans (List.sublist_append_left _ _)
    · obtain rfl := List.mem_singleton.1 hlast
      exact (List.sublist_cons_self _ _).trans (List.sublist_append_right _ _)

theorem Series.tokens_sublist {α : Type} {spell : α → List Token} {s : Series α} {a : α}
    (h : a ∈ s.toList) : (spell a).Sublist (s.tokens spell) :=
  (Chain.tokens_sublist h).trans (List.sublist_append_left _ _)

theorem Group.tokens_sublist {α : Type} {spell : α → List Token} {g : Group α} {a : α}
    (h : a ∈ g.toList) : (spell a).Sublist (g.tokens spell) := by
  obtain ⟨opens, items, closes⟩ := g
  cases items with
  | none => cases h
  | some s =>
    have hs : (spell a).Sublist (s.tokens spell) := Series.tokens_sublist h
    grind [Group.tokens, optional]

theorem Chain.tokens_subset {mark : Terminal} {α : Type} {spell : α → List Token}
    {c : Chain mark α} {a : α} (h : a ∈ c.toList) : spell a ⊆ c.tokens spell :=
  (Chain.tokens_sublist h).subset

theorem Group.tokens_subset {α : Type} {spell : α → List Token} {g : Group α} {a : α}
    (h : a ∈ g.toList) : spell a ⊆ g.tokens spell :=
  (Group.tokens_sublist h).subset

theorem tokens_infix_flatMap {α : Type} {spell : α → List Token} {as : List α} {a : α}
    (h : a ∈ as) : spell a <:+: as.flatMap spell := by
  rw [List.flatMap_def]
  exact List.infix_of_mem_flatten (List.mem_map_of_mem h)

theorem tokens_sublist_flatMap {α : Type} {spell : α → List Token} {as : List α} {a : α}
    (h : a ∈ as) : (spell a).Sublist (as.flatMap spell) :=
  (tokens_infix_flatMap h).sublist

end Grammar

theorem AttrPath.span_ofTree (file : Option String) (r : Grammar.Route) :
    SpansIn file r.tokens (AttrPath.ofTree file r).span :=
  spansIn_spanOf file r.tokens_ne_nil

theorem Literal.span_ofTree {t : Grammar.Literal} {l : Literal}
    (h : Literal.ofTree file t = .ok l) : SpansIn file t.tokens l.span := by
  cases t <;> simp only [Literal.ofTree] at h
  case string l =>
    split at h <;> cases h
    exact l.span_spansIn
  case number l =>
    split at h
    · cases h
      exact l.span_spansIn
    · split at h <;> cases h
      exact l.span_spansIn
  case yes l | no l =>
    cases h
    exact l.span_spansIn

theorem AttrArg.spans_ofTree {t : Grammar.MetaItem} {a : AttrArg}
    (h : AttrArg.ofTree file t = .ok a) : AllSpanIn file t.tokens a.spans := by
  cases t with
  | route r =>
    cases h
    simpa [AttrArg.spans, Grammar.MetaItem.tokens] using AttrPath.span_ofTree file r
  | assign r eq value =>
    obtain ⟨l, hl, h⟩ := bind_eq_ok_iff.1 h
    cases h
    have hr := AttrPath.span_ofTree file r
    have hvalue := Literal.span_ofTree hl
    have hne : (Grammar.MetaItem.assign r eq value).tokens ≠ [] := by
      simp [Grammar.MetaItem.tokens, Grammar.Lexeme.token]
    simp only [AttrArg.spans, allSpanIn_cons, allSpanIn_nil, and_true]
    exact ⟨hr.mono (by grind [Grammar.MetaItem.tokens]),
      hvalue.mono (by grind [Grammar.MetaItem.tokens]), spansIn_spanOf file hne⟩
  | literal value =>
    obtain ⟨l, hl, h⟩ := bind_eq_ok_iff.1 h
    cases h
    simpa [AttrArg.spans, Grammar.MetaItem.tokens] using Literal.span_ofTree hl

theorem Attribute.spans_ofMeta {inner : Bool} {span : Span} {t : Grammar.Meta} {a : Attribute}
    (hts : t.tokens.Sublist ts) (hspan : SpansIn file ts span)
    (h : Attribute.ofMeta file inner span t = .ok a) : AllSpanIn file ts a.spans := by
  have within {us : List Token} (hus : us.Sublist t.tokens) : us.Sublist ts := hus.trans hts
  cases t with
  | word r =>
    cases h
    have hr := AttrPath.span_ofTree file r
    simpa [Attribute.spans, AttrForm.spans] using ⟨hspan, hr.mono (within (List.Sublist.refl _))⟩
  | list r items =>
    obtain ⟨args, hargs, h⟩ := bind_eq_ok_iff.1 h
    cases h
    have hr := AttrPath.span_ofTree file r
    simp only [Attribute.spans, AttrForm.spans, allSpanIn_cons]
    refine ⟨hspan, hr.mono (within (by grind [Grammar.Meta.tokens])), ?_⟩
    intro s hs
    obtain ⟨arg, harg, hs⟩ := List.mem_flatMap.1 hs
    obtain ⟨item, hitem, hof⟩ := exists_of_mem_mapM hargs harg
    have hsub : item.tokens.Sublist (items.tokens Grammar.MetaItem.tokens) :=
      Grammar.Group.tokens_sublist hitem
    exact (AttrArg.spans_ofTree hof s hs).mono
      (within (hsub.trans (by grind [Grammar.Meta.tokens])))
  | value r eq value =>
    obtain ⟨l, hl, h⟩ := bind_eq_ok_iff.1 h
    cases h
    have hr := AttrPath.span_ofTree file r
    have hvalue := Literal.span_ofTree hl
    simp only [Attribute.spans, AttrForm.spans, allSpanIn_cons, allSpanIn_nil, and_true]
    exact ⟨hspan, hr.mono (within (by grind [Grammar.Meta.tokens])),
      hvalue.mono (within (by grind [Grammar.Meta.tokens]))⟩

theorem Attribute.spans_ofTree {t : Grammar.AttrTree} {a : Attribute}
    (h : Attribute.ofTree file t = .ok a) : AllSpanIn file t.tokens a.spans := by
  cases t with
  | doc l =>
    cases h
    simpa [Attribute.spans, AttrForm.spans, Grammar.AttrTree.tokens] using l.span_spansIn
  | written hash bang opens content closes =>
    have hspan : SpansIn file (Grammar.AttrTree.written hash bang opens content closes).tokens _ :=
      spansIn_spanOf file (by simp [Grammar.AttrTree.tokens, Grammar.Lexeme.token])
    exact spans_ofMeta (by grind [Grammar.AttrTree.tokens]) hspan h

namespace Grammar

theorem SelfTree.tokens_ne_nil (t : SelfTree) : t.tokens ≠ [] := by
  cases t <;> simp [SelfTree.tokens, Lexeme.token]

theorem ParamBody.tokens_ne_nil (t : ParamBody) : t.tokens ≠ [] := by
  cases t with
  | receiver s => exact s.tokens_ne_nil
  | typed pattern colon type => simp [ParamBody.tokens, Lexeme.token]

theorem GenericTree.tokens_ne_nil (t : GenericTree) : t.tokens ≠ [] := by
  cases t <;> simp [GenericTree.tokens, Lexeme.token]

end Grammar

theorem SelfParam.span_ofTree (file : Option String) (t : Grammar.SelfTree) :
    SpansIn file t.tokens (SelfParam.ofTree file t).span := by
  have h := spansIn_spanOf file t.tokens_ne_nil
  cases t <;> exact h

theorem Param.spans_ofTree {t : Grammar.ParamTree} {p : Param}
    (h : Param.ofTree file t = .ok p) : AllSpanIn file t.tokens p.spans := by
  obtain ⟨attrs, -, h⟩ := bind_eq_ok_iff.1 h
  have hsub : t.body.tokens.Sublist t.tokens := by grind [Grammar.ParamTree.tokens]
  cases hbody : t.body with
  | receiver s =>
    rw [hbody] at h hsub
    cases h
    simpa [Param.spans] using (SelfParam.span_ofTree file s).mono hsub
  | typed pattern colon type =>
    have hspan := spansIn_spanOf file t.body.tokens_ne_nil
    have htype := TypeExpr.spans_ofTree file type
    rw [hbody] at h
    cases h
    rw [Param.spans, allSpanIn_cons, ← hbody]
    have hpart : type.tokens.Sublist (Grammar.ParamBody.typed pattern colon type).tokens := by
      grind [Grammar.ParamBody.tokens]
    exact ⟨hspan.mono hsub, htype.mono (hpart.trans (hbody ▸ hsub))⟩

theorem GenericParam.span_ofTree (file : Option String) (t : Grammar.GenericTree) :
    SpansIn file t.tokens (GenericParam.ofTree file t).span := by
  have h := spansIn_spanOf file t.tokens_ne_nil
  cases t <;> exact h

theorem GenericParam.spans_listOf (file : Option String) (t : Option Grammar.GenericsTree) :
    AllSpanIn file (Grammar.optional Grammar.GenericsTree.tokens t)
      ((GenericParam.listOf file t).map GenericParam.span) := by
  cases t with
  | none => exact allSpanIn_nil
  | some g =>
    intro s hs
    obtain ⟨p, hp, rfl⟩ := List.mem_map.1 hs
    obtain ⟨t, ht, rfl⟩ := List.mem_map.1 hp
    have hsub : t.tokens.Sublist (g.params.tokens Grammar.GenericTree.tokens) :=
      Grammar.Series.tokens_sublist ht
    refine (span_ofTree file t).mono (hsub.trans ?_)
    grind [Grammar.optional, Grammar.GenericsTree.tokens]

theorem allSpanIn_of_mapM {α β : Type} {f : α → Except BadLiteral β} {spell : α → List Token}
    {spans : β → List Span} (hf : ∀ a b, f a = .ok b → AllSpanIn file (spell a) (spans b))
    {as : List α} {bs : List β} (h : as.mapM f = .ok bs) :
    AllSpanIn file (as.flatMap spell) (bs.flatMap spans) := by
  intro s hs
  obtain ⟨b, hb, hs⟩ := List.mem_flatMap.1 hs
  obtain ⟨a, ha, hab⟩ := exists_of_mem_mapM h hb
  exact (hf a b hab s hs).mono (Grammar.tokens_sublist_flatMap ha)

namespace Grammar

theorem FnTree.tokens_ne_nil (t : FnTree) : t.tokens ≠ [] := by
  simp [FnTree.tokens, Lexeme.token]

theorem ConstTree.tokens_ne_nil (t : ConstTree) : t.tokens ≠ [] := by
  simp [ConstTree.tokens, Lexeme.token]

theorem MemberBody.tokens_ne_nil (t : MemberBody) : t.tokens ≠ [] := by
  cases t with
  | fn f => exact f.tokens_ne_nil
  | const c => exact c.tokens_ne_nil

end Grammar

theorem FnDecl.innerSpans_ofTree {block : Option ImplHeader} {attrs : List Attribute}
    {t : Grammar.FnTree} {d : FnDecl} (h : FnDecl.ofTree file block attrs t = .ok d) :
    AllSpanIn file t.tokens d.innerSpans := by
  obtain ⟨params, hparams, h⟩ := bind_eq_ok_iff.1 h
  cases h
  have hname : SpansIn file t.tokens (t.name.span file) :=
    t.name.span_spansIn.mono (by grind [Grammar.FnTree.tokens])
  have hasync : AllSpanIn file t.tokens (t.asynchronous.map (·.span file)).toList := by
    cases hword : t.asynchronous with
    | none => exact allSpanIn_nil
    | some word =>
      have hmem : word.token.Sublist t.tokens := by
        grind [Grammar.FnTree.tokens, Grammar.optional]
      simpa using word.span_spansIn.mono hmem
  have hparams' : AllSpanIn file t.tokens (params.flatMap Param.spans) := by
    intro s hs
    obtain ⟨p, hp, hs⟩ := List.mem_flatMap.1 hs
    obtain ⟨u, hu, hof⟩ := exists_of_mem_mapM hparams hp
    have hsub : u.tokens.Sublist (t.params.tokens Grammar.ParamTree.tokens) :=
      Grammar.Group.tokens_sublist hu
    exact (Param.spans_ofTree hof s hs).mono (hsub.trans (by grind [Grammar.FnTree.tokens]))
  have hresult : AllSpanIn file t.tokens
      ((t.result.map fun r => TypeExpr.ofTree file r.2).map TypeExpr.spans |>.getD []) := by
    cases hr : t.result with
    | none => exact allSpanIn_nil
    | some r =>
      have hpart : r.2.tokens.Sublist
          (Grammar.optional (fun r => r.1.token ++ r.2.tokens) t.result) := by
        rw [hr]
        exact List.sublist_append_right _ _
      exact (TypeExpr.spans_ofTree file r.2).mono (hpart.trans (by grind [Grammar.FnTree.tokens]))
  have hgenerics : AllSpanIn file t.tokens
      ((GenericParam.listOf file t.generics).map GenericParam.span) :=
    (GenericParam.spans_listOf file t.generics).mono (by grind [Grammar.FnTree.tokens])
  simp only [FnDecl.innerSpans, List.cons_append, allSpanIn_cons, allSpanIn_append]
  exact ⟨hname, ⟨⟨hasync, hparams'⟩, hresult⟩, hgenerics⟩

theorem ConstDecl.innerSpans_ofTree (file : Option String) (block : Option ImplHeader)
    (attrs : List Attribute) (t : Grammar.ConstTree) :
    AllSpanIn file t.tokens (ConstDecl.ofTree file block attrs t).innerSpans := by
  have hname : SpansIn file t.tokens (t.name.span file) :=
    t.name.span_spansIn.mono (by grind [Grammar.ConstTree.tokens])
  have htype : AllSpanIn file t.tokens (TypeExpr.ofTree file t.type).spans :=
    (TypeExpr.spans_ofTree file t.type).mono (by grind [Grammar.ConstTree.tokens])
  simp only [ConstDecl.innerSpans, allSpanIn_cons]
  exact ⟨hname, htype⟩

structure Decl.OfTree (file : Option String) (attrs : List Grammar.AttrTree)
    (t : Grammar.MemberBody) (d : Decl) : Prop where
  attrs : attrs.mapM (Attribute.ofTree file) = .ok d.attrs
  span : d.span = Grammar.spanOf file t.tokens
  name : ∃ l : Grammar.Lexeme .ident, ⟨.ident, l⟩ ∈ t.tokens ∧ d.name = l.text ∧
    d.nameSpan = l.span file
  inner : AllSpanIn file t.tokens d.innerSpans

theorem Decl.ofTree_spec {block : Option ImplHeader} {attrs : List Grammar.AttrTree}
    {t : Grammar.MemberBody} {d : Decl} (h : Decl.ofTree file block attrs t = .ok d) :
    d.OfTree file attrs t := by
  obtain ⟨as, has, h⟩ := bind_eq_ok_iff.1 h
  cases t with
  | fn f =>
    obtain ⟨d', hd, h⟩ := bind_eq_ok_iff.1 h
    cases h
    have hinner := FnDecl.innerSpans_ofTree hd
    obtain ⟨params, -, hd⟩ := bind_eq_ok_iff.1 hd
    cases hd
    refine ⟨has, rfl, ⟨f.name, ?_, rfl, rfl⟩, hinner⟩
    simp [Grammar.MemberBody.tokens, Grammar.FnTree.tokens, Grammar.Lexeme.token]
  | const c =>
    cases h
    refine ⟨has, rfl, ⟨c.name, ?_, rfl, rfl⟩, ConstDecl.innerSpans_ofTree file block as c⟩
    simp [Grammar.MemberBody.tokens, Grammar.ConstTree.tokens, Grammar.Lexeme.token]

theorem Decl.spans_ofTree {block : Option ImplHeader} {attrs : List Grammar.AttrTree}
    {t : Grammar.MemberBody} {d : Decl} (h : Decl.ofTree file block attrs t = .ok d) :
    AllSpanIn file (attrs.flatMap Grammar.AttrTree.tokens ++ t.tokens) d.spans := by
  obtain ⟨hattrs, hspan, -, hinner⟩ := Decl.ofTree_spec h
  intro s hs
  rcases Decl.mem_spans hs with rfl | hs | hs
  · rw [hspan]
    exact (spansIn_spanOf file t.tokens_ne_nil).mono (List.sublist_append_right _ _)
  · exact (allSpanIn_of_mapM (fun _ _ => Attribute.spans_ofTree) hattrs s hs).mono
      (List.sublist_append_left _ _)
  · exact (hinner s hs).mono (List.sublist_append_right _ _)

end NativeBinding
