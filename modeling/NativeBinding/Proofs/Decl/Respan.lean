import NativeBinding.Proofs.Decl.Source
import NativeBinding.Proofs.Except
import NativeBinding.Proofs.Grammar.Relabel

/-!
Moved declarations. Where a relabelling leaves every text as it is, the trees it relabels declare
the same, each span moved as the lexemes are. Where it changes initializers, the constants have
other values.
-/

namespace NativeBinding

section

variable (μ : Span → Span)

mutual

def TypeExpr.respan : TypeExpr → TypeExpr
  | .path segments lifetimes args s => .path segments lifetimes (respanAll args) (μ s)
  | .ref lifetime mutable target s => .ref lifetime mutable target.respan (μ s)
  | .tuple items s => .tuple (respanAll items) (μ s)
  | .slice item length s => .slice item.respan length (μ s)
  | .object kind bounds lifetimes s => .object kind (respanAll bounds) lifetimes (μ s)
  | .inferred s => .inferred (μ s)

def TypeExpr.respanAll : List TypeExpr → List TypeExpr
  | [] => []
  | t :: ts => t.respan :: respanAll ts

end

def AttrPath.respan (p : AttrPath) : AttrPath :=
  { p with span := μ p.span }

def Literal.respan (l : Literal) : Literal :=
  { l with span := μ l.span }

def AttrArg.respan : AttrArg → AttrArg
  | path p => .path (p.respan μ)
  | assign name value s => .assign (name.respan μ) (value.respan μ) (μ s)
  | literal l => .literal (l.respan μ)

def AttrForm.respan : AttrForm → AttrForm
  | word => .word
  | list args => .list (args.map (AttrArg.respan μ))
  | value l => .value (l.respan μ)

def Attribute.respan (a : Attribute) : Attribute :=
  ⟨a.path.respan μ, a.form.respan μ, a.inner, μ a.span⟩

def Param.respan : Param → Param
  | self p => .self { p with span := μ p.span }
  | typed p =>
      .typed ⟨p.pattern, p.type.respan μ, p.attrs.map (Attribute.respan μ), μ p.span⟩

def GenericParam.respan (g : GenericParam) : GenericParam :=
  { g with span := μ g.span }

def ImplHeader.respan (h : ImplHeader) : ImplHeader :=
  ⟨h.subject.respan μ, h.generics.map (GenericParam.respan μ), μ h.span⟩

def FnDecl.respan (d : FnDecl) : FnDecl where
  name := d.name
  params := d.params.map (Param.respan μ)
  result := d.result.map (TypeExpr.respan μ)
  attrs := d.attrs.map (Attribute.respan μ)
  generics := d.generics.map (GenericParam.respan μ)
  asyncSpan := d.asyncSpan.map μ
  block := d.block.map (ImplHeader.respan μ)
  nameSpan := μ d.nameSpan
  span := μ d.span

def ConstDecl.respan (d : ConstDecl) : ConstDecl where
  name := d.name
  type := d.type.respan μ
  value := d.value
  attrs := d.attrs.map (Attribute.respan μ)
  block := d.block.map (ImplHeader.respan μ)
  nameSpan := μ d.nameSpan
  span := μ d.span

def Decl.respan : Decl → Decl
  | fn d => .fn (d.respan μ)
  | const d => .const (d.respan μ)

def SourceItem.respan : SourceItem → SourceItem
  | decl d => .decl (d.respan μ)
  | block b =>
      .block ⟨b.header.respan μ, b.members.map (Decl.respan μ), b.attrs.map (Attribute.respan μ),
        μ b.span⟩

def SourceFile.respan (s : SourceFile) : SourceFile :=
  { s with items := s.items.map (SourceItem.respan μ) }

def BadLiteral.respan : BadLiteral → BadLiteral
  | escape cause s => .escape cause (μ s)
  | oversized cause => .oversized cause

end

open Grammar (Relabelling Token)

/-- Texts stay apart from initializers, and the range from a token to another moves as `μ` says. -/
structure Grammar.Relabelling.Displaces (f : Relabelling) (file : Option String) (μ : Span → Span) :
    Prop where
  text {kind : Grammar.Terminal} (hkind : kind ≠ .initializer) (l : Grammar.Lexeme kind) :
    (f kind l).text = l.text
  between (t u : Token) : Span.between file (t.relabel f).start (u.relabel f).stop =
    μ (.between file t.start u.stop)
  unknown : μ { file } = { file }

/-- Initializers stay up to the blanks around them. -/
structure Grammar.Relabelling.Moves (f : Relabelling) (file : Option String) (μ : Span → Span) :
    Prop extends f.Displaces file μ where
  value (l : Grammar.Lexeme .initializer) :
    Text.strip (f _ l).text.toList = Text.strip l.text.toList

variable {f : Relabelling} {file : Option String} {μ : Span → Span}

namespace Grammar.Relabelling.Displaces

theorem span (h : f.Displaces file μ) {kind : Terminal} (l : Lexeme kind) :
    (f kind l).span file = μ (l.span file) :=
  h.between ⟨kind, l⟩ ⟨kind, l⟩

theorem spanOf (h : f.Displaces file μ) (ts : List Token) :
    spanOf file (ts.map (Token.relabel f)) = μ (spanOf file ts) := by
  cases ts with
  | nil => exact h.unknown.symm
  | cons t ts =>
    have hlast := List.getLast_map (f := Token.relabel f) (l := t :: ts)
      (List.cons_ne_nil _ _)
    rw [List.map_cons, Grammar.spanOf, Grammar.spanOf, ← h.between, ← hlast]
    rfl

theorem texts (h : f.Displaces file μ) {kind : Terminal} (hkind : kind ≠ .initializer)
    (o : Option (Lexeme kind)) : (o.map (f kind)).map (·.text) = o.map (·.text) := by
  cases o with
  | none => rfl
  | some l => exact congrArg some (h.text hkind l)

end Grammar.Relabelling.Displaces

namespace Grammar

theorem SegmentTree.name_relabel (h : f.Displaces file μ) (s : SegmentTree) :
    (s.relabel f).name = s.name := by
  cases s <;> exact h.text (by decide) _

theorem PathTree.names_relabel (h : f.Displaces file μ) (p : PathTree) :
    (p.relabel f).names = p.names := by
  cases p with
  | one s => rw [relabel, names, names, s.name_relabel h]
  | more front sep s => rw [relabel, names, names, s.name_relabel h, names_relabel h front]

theorem ArgTree.lifetimes_relabel (h : f.Displaces file μ) (a : ArgTree) :
    (a.relabel f).lifetimes = a.lifetimes := by
  cases a with
  | type t => rfl
  | lifetime l => rw [relabel, lifetimes, lifetimes, h.text (by decide)]

theorem ArgList.lifetimes_relabel (h : f.Displaces file μ) (as : ArgList) :
    (as.relabel f).lifetimes = as.lifetimes := by
  cases as with
  | one a => exact a.lifetimes_relabel h
  | more front sep a =>
    rw [relabel, lifetimes, lifetimes, lifetimes_relabel h front, a.lifetimes_relabel h]

theorem SegmentTree.lifetimes_relabel (h : f.Displaces file μ) (s : SegmentTree) :
    (s.relabel f).lifetimes = s.lifetimes := by
  cases s with
  | plain name => rfl
  | generic name opens args trailing closes => exact args.lifetimes_relabel h

theorem PathTree.lifetimes_relabel (h : f.Displaces file μ) (p : PathTree) :
    (p.relabel f).lifetimes = p.lifetimes := by
  cases p with
  | one s => exact s.lifetimes_relabel h
  | more front sep s =>
    rw [relabel, lifetimes, lifetimes, lifetimes_relabel h front, s.lifetimes_relabel h]

theorem BoundTree.lifetimes_relabel (h : f.Displaces file μ) (b : BoundTree) :
    (b.relabel f).lifetimes = b.lifetimes := by
  cases b with
  | path p => rfl
  | lifetime l => rw [relabel, lifetimes, lifetimes, h.text (by decide)]

theorem BoundList.lifetimes_relabel (h : f.Displaces file μ) (bs : BoundList) :
    (bs.relabel f).lifetimes = bs.lifetimes := by
  cases bs with
  | one b => exact b.lifetimes_relabel h
  | more front sep b =>
    rw [relabel, lifetimes, lifetimes, lifetimes_relabel h front, b.lifetimes_relabel h]

theorem ObjectWord.kind_relabel (w : ObjectWord) : (w.relabel f).kind = w.kind := by
  cases w <;> rfl

theorem ArrayLength.text_relabel (h : f.Displaces file μ) (n : ArrayLength) :
    (n.relabel f).text = n.text := by
  cases n <;> exact h.text (by decide) _

end Grammar

@[simp] theorem TypeExpr.respanAll_append (as bs : List TypeExpr) :
    respanAll μ (as ++ bs) = respanAll μ as ++ respanAll μ bs := by
  induction as with
  | nil => rfl
  | cons a as ih => rw [List.cons_append, respanAll, respanAll, ih, List.cons_append]

open Grammar in
mutual

theorem TypeExpr.ofTree_relabel (h : f.Displaces file μ) (t : TypeTree) :
    ofTree file (t.relabel f) = (ofTree file t).respan μ := by
  have hspan := h.spanOf t.tokens
  rw [← TypeTree.tokens_relabel] at hspan
  cases t with
  | path p =>
    rw [TypeTree.relabel, ofTree, ofTree, respan, p.names_relabel h, p.lifetimes_relabel h,
      argsOfPath_relabel h p]
    exact congrArg _ hspan
  | ref amp life mutable target =>
    rw [TypeTree.relabel, ofTree, ofTree, respan, h.texts (by decide), Option.isSome_map,
      ofTree_relabel h target]
    exact congrArg _ hspan
  | unit opens closes => exact congrArg _ hspan
  | tuple opens items trailing closes =>
    rw [TypeTree.relabel, ofTree, ofTree, respan, ofList_relabel h items]
    exact congrArg _ hspan
  | slice opens item closes =>
    rw [TypeTree.relabel, ofTree, ofTree, respan, ofTree_relabel h item]
    exact congrArg _ hspan
  | array opens item semi length closes =>
    rw [TypeTree.relabel, ofTree, ofTree, respan, ofTree_relabel h item, length.text_relabel h]
    exact congrArg _ hspan
  | object word bounds =>
    rw [TypeTree.relabel, ofTree, ofTree, respan, word.kind_relabel, bounds.lifetimes_relabel h,
      ofBounds_relabel h bounds]
    exact congrArg _ hspan
  | inferred l => exact congrArg _ (h.span l)

theorem TypeExpr.ofList_relabel (h : f.Displaces file μ) (ts : TypeList) :
    ofList file (ts.relabel f) = respanAll μ (ofList file ts) := by
  cases ts with
  | one t => rw [TypeList.relabel, ofList, ofList, ofTree_relabel h t, respanAll, respanAll]
  | more front sep t =>
    rw [TypeList.relabel, ofList, ofList, respanAll_append, ofList_relabel h front,
      ofTree_relabel h t, respanAll, respanAll]

theorem TypeExpr.argsOfPath_relabel (h : f.Displaces file μ) (p : PathTree) :
    argsOfPath file (p.relabel f) = respanAll μ (argsOfPath file p) := by
  cases p with
  | one s => rw [PathTree.relabel, argsOfPath, argsOfPath, argsOfSegment_relabel h s]
  | more front sep s =>
    rw [PathTree.relabel, argsOfPath, argsOfPath, respanAll_append, argsOfPath_relabel h front,
      argsOfSegment_relabel h s]

theorem TypeExpr.argsOfSegment_relabel (h : f.Displaces file μ) (s : SegmentTree) :
    argsOfSegment file (s.relabel f) = respanAll μ (argsOfSegment file s) := by
  cases s with
  | plain name => rw [SegmentTree.relabel, argsOfSegment, argsOfSegment, respanAll]
  | generic name opens args trailing closes =>
    rw [SegmentTree.relabel, argsOfSegment, argsOfSegment, ofArgs_relabel h args]

theorem TypeExpr.ofArgs_relabel (h : f.Displaces file μ) (as : ArgList) :
    ofArgs file (as.relabel f) = respanAll μ (ofArgs file as) := by
  cases as with
  | one a => rw [ArgList.relabel, ofArgs, ofArgs, ofArg_relabel h a]
  | more front sep a =>
    rw [ArgList.relabel, ofArgs, ofArgs, respanAll_append, ofArgs_relabel h front,
      ofArg_relabel h a]

theorem TypeExpr.ofArg_relabel (h : f.Displaces file μ) (a : ArgTree) :
    ofArg file (a.relabel f) = respanAll μ (ofArg file a) := by
  cases a with
  | type t => rw [ArgTree.relabel, ofArg, ofArg, ofTree_relabel h t, respanAll, respanAll]
  | lifetime l => rw [ArgTree.relabel, ofArg, ofArg, respanAll]

theorem TypeExpr.ofBounds_relabel (h : f.Displaces file μ) (bs : BoundList) :
    ofBounds file (bs.relabel f) = respanAll μ (ofBounds file bs) := by
  cases bs with
  | one b => rw [BoundList.relabel, ofBounds, ofBounds, ofBound_relabel h b]
  | more front sep b =>
    rw [BoundList.relabel, ofBounds, ofBounds, respanAll_append, ofBounds_relabel h front,
      ofBound_relabel h b]

theorem TypeExpr.ofBound_relabel (h : f.Displaces file μ) (b : BoundTree) :
    ofBound file (b.relabel f) = respanAll μ (ofBound file b) := by
  cases b with
  | path p =>
    rw [BoundTree.relabel, ofBound, ofBound, respanAll, respanAll, respan, p.names_relabel h,
      p.lifetimes_relabel h, argsOfPath_relabel h p, PathTree.tokens_relabel, h.spanOf]
  | lifetime l => rw [BoundTree.relabel, ofBound, ofBound, respanAll]

end

theorem AttrPath.ofTree_relabel (h : f.Displaces file μ) (r : Grammar.Route) :
    ofTree file (r.relabel f) = (ofTree file r).respan μ := by
  have hsegments : (r.relabel f).toList.map (·.text) = r.toList.map (·.text) := by
    rw [Grammar.Route.relabel, Grammar.Chain.toList_relabel, List.map_map]
    exact List.map_congr_left fun l _ => h.text (by decide) l
  rw [ofTree, ofTree, respan, hsegments, Grammar.Route.tokens_relabel, h.spanOf]

theorem Literal.ofTree_relabel (h : f.Displaces file μ) (t : Grammar.Literal) :
    ofTree file (t.relabel f) =
      mapBoth (BadLiteral.respan μ) (Literal.respan μ) (ofTree file t) := by
  cases t with
  | string l =>
    rw [Grammar.Literal.relabel, ofTree, ofTree, h.text (by decide), h.span]
    cases Escape.decode (unquote l.text) <;> rfl
  | number l =>
    simp only [Grammar.Literal.relabel, ofTree]
    rw [h.text (by decide), h.span]
    split
    · rfl
    · cases Number.intOfDigits l.text.toList <;> rfl
  | yes l | no l =>
    rw [Grammar.Literal.relabel, ofTree, ofTree, h.span]
    rfl

theorem AttrArg.ofTree_relabel (h : f.Displaces file μ) (t : Grammar.MetaItem) :
    ofTree file (t.relabel f) =
      mapBoth (BadLiteral.respan μ) (AttrArg.respan μ) (ofTree file t) := by
  have hspan := h.spanOf t.tokens
  rw [← Grammar.MetaItem.tokens_relabel] at hspan
  cases t with
  | route r =>
    rw [Grammar.MetaItem.relabel, ofTree, ofTree, AttrPath.ofTree_relabel h]
    rfl
  | assign r eq value =>
    simp only [Grammar.MetaItem.relabel, ofTree] at hspan ⊢
    rw [Literal.ofTree_relabel h, AttrPath.ofTree_relabel h, hspan]
    exact bind_mapBoth (fun _ => by rfl) _
  | literal value =>
    simp only [Grammar.MetaItem.relabel, ofTree]
    rw [Literal.ofTree_relabel h]
    exact bind_mapBoth (fun _ => by rfl) _

theorem Attribute.ofMeta_relabel (h : f.Displaces file μ) (inner : Bool) (span : Span)
    (t : Grammar.Meta) :
    ofMeta file inner (μ span) (t.relabel f) =
      mapBoth (BadLiteral.respan μ) (Attribute.respan μ) (ofMeta file inner span t) := by
  cases t with
  | word r =>
    rw [Grammar.Meta.relabel, ofMeta, ofMeta, AttrPath.ofTree_relabel h]
    rfl
  | list r items =>
    simp only [Grammar.Meta.relabel, ofMeta]
    rw [AttrPath.ofTree_relabel h, Grammar.Group.toList_relabel,
      mapM_mapBoth (fun a _ => AttrArg.ofTree_relabel h a)]
    exact bind_mapBoth (fun _ => by rfl) _
  | value r eq value =>
    simp only [Grammar.Meta.relabel, ofMeta]
    rw [AttrPath.ofTree_relabel h, Literal.ofTree_relabel h]
    exact bind_mapBoth (fun _ => by rfl) _

theorem Attribute.ofTree_relabel (h : f.Displaces file μ) (t : Grammar.AttrTree) :
    ofTree file (t.relabel f) =
      mapBoth (BadLiteral.respan μ) (Attribute.respan μ) (ofTree file t) := by
  have hspan := h.spanOf t.tokens
  rw [← Grammar.AttrTree.tokens_relabel] at hspan
  cases t with
  | doc l =>
    simp only [Grammar.AttrTree.relabel, ofTree]
    rw [h.text (by decide), h.span]
    rfl
  | written hash bang opens content closes =>
    simp only [Grammar.AttrTree.relabel, ofTree] at hspan ⊢
    rw [hspan, Option.isSome_map]
    exact ofMeta_relabel h bang.isSome _ content

theorem Attribute.ofParam_relabel (h : f.Displaces file μ) (t : Grammar.ParamAttrTree) :
    ofParam file (t.relabel f) =
      mapBoth (BadLiteral.respan μ) (Attribute.respan μ) (ofParam file t) := by
  rw [ofParam, ofParam, Grammar.ParamAttrTree.tokens_relabel, h.spanOf]
  exact ofMeta_relabel h false _ t.content

theorem GenericParam.ofTree_relabel (h : f.Displaces file μ) (t : Grammar.GenericTree) :
    ofTree file (t.relabel f) = (ofTree file t).respan μ := by
  have hspan := h.spanOf t.tokens
  rw [← Grammar.GenericTree.tokens_relabel] at hspan
  cases t <;> simp only [Grammar.GenericTree.relabel, ofTree, respan] at hspan ⊢ <;>
    rw [hspan, h.text (by decide)]

theorem GenericParam.listOf_relabel (h : f.Displaces file μ) (o : Option Grammar.GenericsTree) :
    listOf file (o.map (Grammar.GenericsTree.relabel f)) = (listOf file o).map (respan μ) := by
  cases o with
  | none => rfl
  | some g =>
    rw [Option.map_some, listOf, listOf, List.map_map, Grammar.GenericsTree.relabel,
      Grammar.Series.toList, Grammar.Series.relabel, Grammar.Chain.toList_relabel, List.map_map]
    exact List.map_congr_left fun t _ => ofTree_relabel h t

theorem Pattern.ofTree_relabel (h : f.Displaces file μ) (t : Grammar.PatternTree) :
    ofTree (t.relabel f) = ofTree t := by
  cases t with
  | name mutable l =>
    rw [Grammar.PatternTree.relabel, ofTree, ofTree, h.text (by decide), Option.isSome_map]
  | _ => rfl

theorem SelfParam.ofTree_relabel (h : f.Displaces file μ) (t : Grammar.SelfTree) :
    ofTree file (t.relabel f) = { ofTree file t with span := μ (ofTree file t).span } := by
  have hspan := h.spanOf t.tokens
  rw [← Grammar.SelfTree.tokens_relabel] at hspan
  cases t <;> simp only [Grammar.SelfTree.relabel, ofTree] at hspan ⊢
  · rw [hspan, Option.isSome_map]
  · rw [hspan, Option.isSome_map, h.texts (by decide)]

theorem Param.ofTree_relabel (h : f.Displaces file μ) (t : Grammar.ParamTree) :
    ofTree file (t.relabel f) =
      mapBoth (BadLiteral.respan μ) (Param.respan μ) (ofTree file t) := by
  obtain ⟨attrs, body⟩ := t
  have hspan := h.spanOf body.tokens
  rw [← Grammar.ParamBody.tokens_relabel] at hspan
  rw [ofTree, ofTree, Grammar.ParamTree.relabel,
    mapM_mapBoth (fun a _ => Attribute.ofParam_relabel h a)]
  apply bind_mapBoth
  intro attrs'
  cases body with
  | receiver s =>
    simp only [Grammar.ParamBody.relabel]
    rw [SelfParam.ofTree_relabel h]
    rfl
  | typed pattern colon type =>
    simp only [Grammar.ParamBody.relabel] at hspan ⊢
    rw [Pattern.ofTree_relabel h, TypeExpr.ofTree_relabel h, hspan]
    rfl

theorem FnDecl.ofTree_relabel (h : f.Displaces file μ) (block : Option ImplHeader)
    (attrs : List Attribute) (t : Grammar.FnTree) :
    ofTree file (block.map (ImplHeader.respan μ)) (attrs.map (Attribute.respan μ)) (t.relabel f) =
      mapBoth (BadLiteral.respan μ) (FnDecl.respan μ) (ofTree file block attrs t) := by
  have hspan := h.spanOf t.tokens
  rw [← Grammar.FnTree.tokens_relabel] at hspan
  have hresult : (t.result.map (Grammar.relabelResult f)).map (fun r => TypeExpr.ofTree file r.2) =
      (t.result.map fun r => TypeExpr.ofTree file r.2).map (TypeExpr.respan μ) := by
    cases t.result with
    | none => rfl
    | some r => exact congrArg some (TypeExpr.ofTree_relabel h r.2)
  have hasync : (t.asynchronous.map (f _)).map (·.span file) =
      (t.asynchronous.map (·.span file)).map μ := by
    cases t.asynchronous with
    | none => rfl
    | some l => exact congrArg some (h.span l)
  rw [ofTree, ofTree, hspan]
  simp only [Grammar.FnTree.relabel]
  rw [Grammar.Group.toList_relabel, mapM_mapBoth (fun p _ => Param.ofTree_relabel h p), hresult,
    hasync, GenericParam.listOf_relabel h, h.text (by decide), h.span]
  exact bind_mapBoth (fun _ => by rfl) _

theorem ConstDecl.ofTree_relabel (h : f.Displaces file μ) (block : Option ImplHeader)
    (attrs : List Attribute) (t : Grammar.ConstTree) :
    ofTree file (block.map (ImplHeader.respan μ)) (attrs.map (Attribute.respan μ)) (t.relabel f) =
      { (ofTree file block attrs t).respan μ with
        value := .ofList (Text.strip (f _ t.value).text.toList) } := by
  have hspan := h.spanOf t.tokens
  rw [← Grammar.ConstTree.tokens_relabel] at hspan
  rw [ofTree, ofTree, respan, hspan]
  simp only [Grammar.ConstTree.relabel]
  rw [h.text (by decide), h.span, TypeExpr.ofTree_relabel h]

theorem ImplHeader.ofTree_relabel (h : f.Displaces file μ) (t : Grammar.BlockTree) :
    ofTree file (t.relabel f) = (ofTree file t).respan μ := by
  rw [ofTree, ofTree, respan, Grammar.BlockTree.tokens_relabel, h.spanOf]
  simp only [Grammar.BlockTree.relabel, Grammar.BlockHead.relabel]
  rw [TypeExpr.ofTree_relabel h, GenericParam.listOf_relabel h]

section

variable (g : ConstDecl → ConstDecl)

def Decl.mapConst : Decl → Decl
  | fn d => .fn d
  | const d => .const (g d)

def SourceItem.mapConst : SourceItem → SourceItem
  | decl d => .decl (d.mapConst g)
  | block b => .block { b with members := b.members.map (Decl.mapConst g) }

def SourceFile.mapConst (f : SourceFile) : SourceFile :=
  { f with items := f.items.map (SourceItem.mapConst g) }

end

theorem Decl.mapConst_id (d : Decl) : d.mapConst id = d := by
  cases d <;> rfl

theorem SourceItem.mapConst_id (i : SourceItem) : i.mapConst id = i := by
  cases i with
  | decl d => rw [mapConst, d.mapConst_id]
  | block b =>
    have hmembers : b.members.map (Decl.mapConst id) = b.members := by
      simp [funext Decl.mapConst_id]
    rw [mapConst, hmembers]

theorem SourceFile.mapConst_id (f : SourceFile) : f.mapConst id = f := by
  simp [mapConst, funext SourceItem.mapConst_id]

theorem SourceFile.declarations_respan (μ : Span → Span) (f : SourceFile) :
    (f.respan μ).declarations = f.declarations.map (Decl.respan μ) := by
  rw [declarations, declarations, respan, List.flatMap_map, List.map_flatMap]
  congr 1
  funext i
  cases i <;> rfl

theorem SourceFile.declarations_mapConst (g : ConstDecl → ConstDecl) (f : SourceFile) :
    (f.mapConst g).declarations = f.declarations.map (Decl.mapConst g) := by
  rw [declarations, declarations, mapConst, List.flatMap_map, List.map_flatMap]
  congr 1
  funext i
  cases i <;> rfl

/-- What `g` makes of a constant has the value that the relabelling gives to it. -/
def Grammar.ConstTree.Becomes (c : Grammar.ConstTree) (f : Relabelling) (file : Option String)
    (μ : Span → Span) (g : ConstDecl → ConstDecl) : Prop :=
  ∀ block attrs, (g (ConstDecl.ofTree file block attrs c)).respan μ =
    { (ConstDecl.ofTree file block attrs c).respan μ with
      value := .ofList (Text.strip (f _ c.value).text.toList) }

section

variable {g : ConstDecl → ConstDecl}

theorem Decl.ofTree_relabel (h : f.Displaces file μ) (block : Option ImplHeader)
    (attrs : List Grammar.AttrTree) {t : Grammar.MemberBody}
    (hg : ∀ c, t = .const c → c.Becomes f file μ g) :
    ofTree file (block.map (ImplHeader.respan μ)) (attrs.map (Grammar.AttrTree.relabel f))
        (t.relabel f) =
      mapBoth (BadLiteral.respan μ) (fun d => (d.mapConst g).respan μ)
        (ofTree file block attrs t) := by
  rw [ofTree, ofTree, mapM_mapBoth (fun a _ => Attribute.ofTree_relabel h a)]
  apply bind_mapBoth
  intro attrs'
  cases t with
  | fn t =>
    simp only [Grammar.MemberBody.relabel]
    rw [FnDecl.ofTree_relabel h]
    exact bind_mapBoth (fun _ => by rfl) _
  | const t =>
    simp only [Grammar.MemberBody.relabel]
    rw [ConstDecl.ofTree_relabel h, ← hg t rfl block attrs']
    rfl

theorem SourceItem.ofTree_relabel (h : f.Displaces file μ) {t : Grammar.ItemTree}
    (hg : ∀ b attrs c, (b, attrs, .const c) ∈ t.members → c.Becomes f file μ g) :
    ofTree file (t.relabel f) =
      mapBoth (BadLiteral.respan μ) (fun i => (i.mapConst g).respan μ) (ofTree file t) := by
  obtain ⟨attrs, body⟩ := t
  cases body with
  | member m =>
    have hdecl := Decl.ofTree_relabel h none attrs (t := m)
      fun c hc => hg none attrs c (by simp [Grammar.ItemTree.members, hc])
    rw [Option.map_none] at hdecl
    simp only [Grammar.ItemTree.relabel, Grammar.ItemBody.relabel, ofTree]
    rw [hdecl]
    exact bind_mapBoth (fun _ => by rfl) _
  | block b =>
    have hheader := ImplHeader.ofTree_relabel h b
    have hmember (m : Grammar.MemberTree) (hm : m ∈ b.members) :
        Decl.ofTree file (some (ImplHeader.ofTree file (b.relabel f))) (m.relabel f).attrs
            (m.relabel f).body =
          mapBoth (BadLiteral.respan μ) (fun d => (d.mapConst g).respan μ)
            (Decl.ofTree file (some (ImplHeader.ofTree file b)) m.attrs m.body) := by
      rw [hheader]
      refine Decl.ofTree_relabel h (some (ImplHeader.ofTree file b)) m.attrs fun c hc => ?_
      exact hg (some b) m.attrs c (List.mem_map.2 ⟨m, hm, by rw [hc]⟩)
    simp only [Grammar.ItemTree.relabel, Grammar.ItemBody.relabel, ofTree]
    rw [mapM_mapBoth (fun a _ => Attribute.ofTree_relabel h a)]
    apply bind_mapBoth
    intro attrs'
    rw [show (b.relabel f).members = b.members.map (Grammar.MemberTree.relabel f) from rfl,
      mapM_mapBoth hmember, hheader]
    refine bind_mapBoth (fun members => ?_) _
    simp only [mapBoth, pure, Except.pure, respan, mapConst, List.map_map]
    rfl

theorem SourceFile.ofTrees_mapConst (h : f.Displaces file μ) {items : List Grammar.ItemTree}
    (hg : ∀ t ∈ items, ∀ b attrs c, (b, attrs, .const c) ∈ t.members → c.Becomes f file μ g) :
    ofTrees file (items.map (Grammar.ItemTree.relabel f)) =
      mapBoth (BadLiteral.respan μ) (fun s => (s.mapConst g).respan μ) (ofTrees file items) := by
  rw [ofTrees, ofTrees, mapM_mapBoth (fun t ht => SourceItem.ofTree_relabel h (hg t ht))]
  refine bind_mapBoth (fun items => ?_) _
  simp only [mapBoth, pure, Except.pure, respan, mapConst, List.map_map]
  rfl

theorem SourceFile.ofTrees_relabel (h : f.Moves file μ) (items : List Grammar.ItemTree) :
    ofTrees file (items.map (Grammar.ItemTree.relabel f)) =
      mapBoth (BadLiteral.respan μ) (SourceFile.respan μ) (ofTrees file items) := by
  rw [ofTrees_mapConst h.toDisplaces (g := id)]
  · simp only [mapConst_id]
  · intro t _ b attrs c _ block attrs'
    rw [h.value]
    rfl

end

end NativeBinding
