import NativeBinding.Grammar.Tree

/-!
Changed lexemes. A relabelling gives each lexeme another text or another place and leaves its kind.
The relabelled tree has the shape of the tree, and its tokens are the relabelled tokens.
-/

namespace NativeBinding.Grammar

abbrev Relabelling := (kind : Terminal) → Lexeme kind → Lexeme kind

def Token.relabel (f : Relabelling) (t : Token) : Token :=
  ⟨t.kind, f t.kind t.lexeme⟩

@[simp] theorem Token.kind_relabel (f : Relabelling) (t : Token) :
    (t.relabel f).kind = t.kind := rfl

variable (f : Relabelling)

def Chain.relabel {mark : Terminal} {α : Type} (item : α → α) : Chain mark α → Chain mark α
  | one a => .one (item a)
  | more front sep a => .more (front.relabel item) (f _ sep) (item a)

def Series.relabel {α : Type} (item : α → α) (s : Series α) : Series α :=
  ⟨s.items.relabel f item, s.trailing.map (f _)⟩

def Group.relabel {α : Type} (item : α → α) (g : Group α) : Group α :=
  ⟨f _ g.opens, g.items.map (Series.relabel f item), f _ g.closes⟩

def Route.relabel (r : Route) : Route :=
  Chain.relabel f (f _) r

def Literal.relabel : Literal → Literal
  | string l => .string (f _ l)
  | number l => .number (f _ l)
  | yes l => .yes (f _ l)
  | no l => .no (f _ l)

def MetaItem.relabel : MetaItem → MetaItem
  | route r => .route (r.relabel f)
  | assign r eq value => .assign (r.relabel f) (f _ eq) (value.relabel f)
  | literal value => .literal (value.relabel f)

def Meta.relabel : Meta → Meta
  | word r => .word (r.relabel f)
  | list r items => .list (r.relabel f) (items.relabel f (MetaItem.relabel f))
  | value r eq v => .value (r.relabel f) (f _ eq) (v.relabel f)

def AttrTree.relabel : AttrTree → AttrTree
  | doc comment => .doc (f _ comment)
  | written hash bang opens content closes =>
      .written (f _ hash) (bang.map (f _)) (f _ opens) (content.relabel f) (f _ closes)

def ParamAttrTree.relabel (a : ParamAttrTree) : ParamAttrTree :=
  ⟨f _ a.hash, f _ a.opens, a.content.relabel f, f _ a.closes⟩

def ObjectWord.relabel : ObjectWord → ObjectWord
  | impl l => .impl (f _ l)
  | dyn l => .dyn (f _ l)

def ArrayLength.relabel : ArrayLength → ArrayLength
  | number l => .number (f _ l)
  | ident l => .ident (f _ l)

mutual

def TypeTree.relabel : TypeTree → TypeTree
  | .path p => .path p.relabel
  | .ref amp life mutable target =>
      .ref (f _ amp) (life.map (f _)) (mutable.map (f _)) target.relabel
  | .unit opens closes => .unit (f _ opens) (f _ closes)
  | .tuple opens items trailing closes =>
      .tuple (f _ opens) items.relabel (trailing.map (f _)) (f _ closes)
  | .slice opens item closes => .slice (f _ opens) item.relabel (f _ closes)
  | .array opens item semi length closes =>
      .array (f _ opens) item.relabel (f _ semi) (length.relabel f) (f _ closes)
  | .object word bounds => .object (word.relabel f) bounds.relabel
  | .inferred l => .inferred (f _ l)

def TypeList.relabel : TypeList → TypeList
  | .one t => .one t.relabel
  | .more front sep t => .more front.relabel (f _ sep) t.relabel

def PathTree.relabel : PathTree → PathTree
  | .one s => .one s.relabel
  | .more front sep s => .more front.relabel (f _ sep) s.relabel

def SegmentTree.relabel : SegmentTree → SegmentTree
  | .plain name => .plain (f _ name)
  | .generic name opens args trailing closes =>
      .generic (f _ name) (f _ opens) args.relabel (trailing.map (f _)) (f _ closes)

def ArgList.relabel : ArgList → ArgList
  | .one a => .one a.relabel
  | .more front sep a => .more front.relabel (f _ sep) a.relabel

def ArgTree.relabel : ArgTree → ArgTree
  | .type t => .type t.relabel
  | .lifetime l => .lifetime (f _ l)

def BoundList.relabel : BoundList → BoundList
  | .one b => .one b.relabel
  | .more front sep b => .more front.relabel (f _ sep) b.relabel

def BoundTree.relabel : BoundTree → BoundTree
  | .path p => .path p.relabel
  | .lifetime l => .lifetime (f _ l)

end

def GenericTree.relabel : GenericTree → GenericTree
  | lifetime name bounds =>
      .lifetime (f _ name) (bounds.map fun b => (f _ b.1, b.2.relabel f (f _)))
  | type name bounds => .type (f _ name) (bounds.map fun b => (f _ b.1, b.2.relabel f))
  | const word name colon ty => .const (f _ word) (f _ name) (f _ colon) (ty.relabel f)

def GenericsTree.relabel (g : GenericsTree) : GenericsTree :=
  ⟨f _ g.opens, g.params.relabel f (GenericTree.relabel f), f _ g.closes⟩

mutual

def PatternTree.relabel : PatternTree → PatternTree
  | .name mutable name => .name (mutable.map (f _)) (f _ name)
  | .wildcard l => .wildcard (f _ l)
  | .unit opens closes => .unit (f _ opens) (f _ closes)
  | .tuple opens items trailing closes =>
      .tuple (f _ opens) items.relabel (trailing.map (f _)) (f _ closes)

def PatternList.relabel : PatternList → PatternList
  | .one p => .one p.relabel
  | .more front sep p => .more front.relabel (f _ sep) p.relabel

end

def SelfTree.relabel : SelfTree → SelfTree
  | value mutable word => .value (mutable.map (f _)) (f _ word)
  | ref amp life mutable word =>
      .ref (f _ amp) (life.map (f _)) (mutable.map (f _)) (f _ word)

def ParamBody.relabel : ParamBody → ParamBody
  | receiver s => .receiver (s.relabel f)
  | typed pattern colon type => .typed (pattern.relabel f) (f _ colon) (type.relabel f)

def ParamTree.relabel (p : ParamTree) : ParamTree :=
  ⟨p.attrs.map (ParamAttrTree.relabel f), p.body.relabel f⟩

def Restriction.relabel (r : Restriction) : Restriction :=
  ⟨f _ r.opens, f _ r.name, f _ r.closes⟩

def Visibility.relabel (v : Visibility) : Visibility :=
  ⟨f _ v.word, v.restriction.map (Restriction.relabel f)⟩

def FnEnd.relabel : FnEnd → FnEnd
  | semicolon l => .semicolon (f _ l)
  | block opens closes => .block (f _ opens) (f _ closes)

def relabelResult (r : Lexeme .arrow × TypeTree) : Lexeme .arrow × TypeTree :=
  (f _ r.1, r.2.relabel f)

def FnTree.relabel (t : FnTree) : FnTree where
  visibility := t.visibility.map (Visibility.relabel f)
  asynchronous := t.asynchronous.map (f _)
  word := f _ t.word
  name := f _ t.name
  generics := t.generics.map (GenericsTree.relabel f)
  params := t.params.relabel f (ParamTree.relabel f)
  result := t.result.map (relabelResult f)
  ending := t.ending.relabel f

def ConstTree.relabel (c : ConstTree) : ConstTree where
  visibility := c.visibility.map (Visibility.relabel f)
  word := f _ c.word
  name := f _ c.name
  colon := f _ c.colon
  type := c.type.relabel f
  eq := f _ c.eq
  value := f _ c.value
  semi := f _ c.semi

def MemberBody.relabel : MemberBody → MemberBody
  | fn t => .fn (t.relabel f)
  | const c => .const (c.relabel f)

def MemberTree.relabel (m : MemberTree) : MemberTree :=
  ⟨m.attrs.map (AttrTree.relabel f), m.body.relabel f⟩

def BlockHead.relabel (h : BlockHead) : BlockHead :=
  ⟨f _ h.word, h.generics.map (GenericsTree.relabel f), h.subject.relabel f, f _ h.opens⟩

def BlockTree.relabel (b : BlockTree) : BlockTree :=
  ⟨b.head.relabel f, b.members.map (MemberTree.relabel f), f _ b.closes⟩

def ItemBody.relabel : ItemBody → ItemBody
  | member m => .member (m.relabel f)
  | block b => .block (b.relabel f)

def ItemTree.relabel (i : ItemTree) : ItemTree :=
  ⟨i.attrs.map (AttrTree.relabel f), i.body.relabel f⟩

variable {f : Relabelling}

theorem optional_relabel {α β : Type} {g : α → β} {spell : β → List Token}
    {spell' : α → List Token} (h : ∀ a, spell (g a) = (spell' a).map (Token.relabel f))
    (o : Option α) :
    optional spell (o.map g) = (optional spell' o).map (Token.relabel f) := by
  cases o with
  | none => rfl
  | some a => exact h a

theorem flatMap_relabel {α : Type} {g : α → α} {spell : α → List Token}
    (h : ∀ a, spell (g a) = (spell a).map (Token.relabel f)) (as : List α) :
    (as.map g).flatMap spell = (as.flatMap spell).map (Token.relabel f) := by
  rw [List.flatMap_map, List.map_flatMap]
  simp only [h]

@[simp] theorem Lexeme.token_relabel {kind : Terminal} (l : Lexeme kind) :
    (f _ l).token = l.token.map (Token.relabel f) := rfl

@[simp] theorem optional_token_relabel {kind : Terminal} (o : Option (Lexeme kind)) :
    optional Lexeme.token (o.map (f _)) = (optional Lexeme.token o).map (Token.relabel f) :=
  optional_relabel Lexeme.token_relabel o

section

variable {α : Type} {g : α → α} {spell : α → List Token}

theorem Chain.tokens_relabel (h : ∀ a, spell (g a) = (spell a).map (Token.relabel f))
    {mark : Terminal} (c : Chain mark α) :
    (c.relabel f g).tokens spell = (c.tokens spell).map (Token.relabel f) := by
  induction c with
  | one a => exact h a
  | more front sep a ih =>
    rw [Chain.relabel, Chain.tokens, Chain.tokens, ih, h, List.map_append, List.map_cons]
    rfl

theorem Series.tokens_relabel (h : ∀ a, spell (g a) = (spell a).map (Token.relabel f))
    (s : Series α) : (s.relabel f g).tokens spell = (s.tokens spell).map (Token.relabel f) := by
  simp [Series.relabel, Series.tokens, Chain.tokens_relabel h]

theorem Group.tokens_relabel (h : ∀ a, spell (g a) = (spell a).map (Token.relabel f))
    (s : Group α) : (s.relabel f g).tokens spell = (s.tokens spell).map (Token.relabel f) := by
  simp [Group.relabel, Group.tokens, optional_relabel (Series.tokens_relabel h)]

theorem Chain.toList_relabel {mark : Terminal} (c : Chain mark α) :
    (c.relabel f g).toList = c.toList.map g := by
  induction c with
  | one a => rfl
  | more front sep a ih => rw [Chain.relabel, Chain.toList, Chain.toList, ih, List.map_append,
      List.map_singleton]

theorem Group.toList_relabel (s : Group α) : (s.relabel f g).toList = s.toList.map g := by
  obtain ⟨opens, items, closes⟩ := s
  cases items with
  | none => rfl
  | some items => exact items.items.toList_relabel

end

@[simp] theorem Route.tokens_relabel (r : Route) :
    (r.relabel f).tokens = r.tokens.map (Token.relabel f) :=
  Chain.tokens_relabel Lexeme.token_relabel r

@[simp] theorem Literal.tokens_relabel (v : Literal) :
    (v.relabel f).tokens = v.tokens.map (Token.relabel f) := by
  cases v <;> rfl

@[simp] theorem MetaItem.tokens_relabel (m : MetaItem) :
    (m.relabel f).tokens = m.tokens.map (Token.relabel f) := by
  cases m <;> simp [MetaItem.relabel, MetaItem.tokens]

@[simp] theorem Meta.tokens_relabel (m : Meta) :
    (m.relabel f).tokens = m.tokens.map (Token.relabel f) := by
  cases m <;> simp [Meta.relabel, Meta.tokens, Group.tokens_relabel MetaItem.tokens_relabel]

@[simp] theorem AttrTree.tokens_relabel (a : AttrTree) :
    (a.relabel f).tokens = a.tokens.map (Token.relabel f) := by
  cases a <;> simp [AttrTree.relabel, AttrTree.tokens]

@[simp] theorem ParamAttrTree.tokens_relabel (a : ParamAttrTree) :
    (a.relabel f).tokens = a.tokens.map (Token.relabel f) := by
  simp [ParamAttrTree.relabel, ParamAttrTree.tokens]

@[simp] theorem ObjectWord.tokens_relabel (w : ObjectWord) :
    (w.relabel f).tokens = w.tokens.map (Token.relabel f) := by
  cases w <;> rfl

@[simp] theorem ArrayLength.tokens_relabel (n : ArrayLength) :
    (n.relabel f).tokens = n.tokens.map (Token.relabel f) := by
  cases n <;> rfl

mutual

@[simp] theorem TypeTree.tokens_relabel (t : TypeTree) :
    (t.relabel f).tokens = t.tokens.map (Token.relabel f) := by
  cases t with
  | path p => simp [TypeTree.relabel, TypeTree.tokens, PathTree.tokens_relabel p]
  | ref amp life mutable target =>
    simp [TypeTree.relabel, TypeTree.tokens, TypeTree.tokens_relabel target]
  | unit opens closes => rfl
  | tuple opens items trailing closes =>
    simp [TypeTree.relabel, TypeTree.tokens, TypeList.tokens_relabel items]
  | slice opens item closes =>
    simp [TypeTree.relabel, TypeTree.tokens, TypeTree.tokens_relabel item]
  | array opens item semi length closes =>
    simp [TypeTree.relabel, TypeTree.tokens, TypeTree.tokens_relabel item]
  | object word bounds => simp [TypeTree.relabel, TypeTree.tokens, BoundList.tokens_relabel bounds]
  | inferred l => rfl

theorem TypeList.tokens_relabel (ts : TypeList) :
    (ts.relabel f).tokens = ts.tokens.map (Token.relabel f) := by
  cases ts with
  | one t => simp [TypeList.relabel, TypeList.tokens, TypeTree.tokens_relabel t]
  | more front sep t =>
    simp [TypeList.relabel, TypeList.tokens, TypeList.tokens_relabel front,
      TypeTree.tokens_relabel t]

@[simp] theorem PathTree.tokens_relabel (p : PathTree) :
    (p.relabel f).tokens = p.tokens.map (Token.relabel f) := by
  cases p with
  | one s => simp [PathTree.relabel, PathTree.tokens, SegmentTree.tokens_relabel s]
  | more front sep s =>
    simp [PathTree.relabel, PathTree.tokens, PathTree.tokens_relabel front,
      SegmentTree.tokens_relabel s]

theorem SegmentTree.tokens_relabel (s : SegmentTree) :
    (s.relabel f).tokens = s.tokens.map (Token.relabel f) := by
  cases s with
  | plain name => rfl
  | generic name opens args trailing closes =>
    simp [SegmentTree.relabel, SegmentTree.tokens, ArgList.tokens_relabel args]

theorem ArgList.tokens_relabel (as : ArgList) :
    (as.relabel f).tokens = as.tokens.map (Token.relabel f) := by
  cases as with
  | one a => simp [ArgList.relabel, ArgList.tokens, ArgTree.tokens_relabel a]
  | more front sep a =>
    simp [ArgList.relabel, ArgList.tokens, ArgList.tokens_relabel front, ArgTree.tokens_relabel a]

theorem ArgTree.tokens_relabel (a : ArgTree) :
    (a.relabel f).tokens = a.tokens.map (Token.relabel f) := by
  cases a with
  | type t => simp [ArgTree.relabel, ArgTree.tokens, TypeTree.tokens_relabel t]
  | lifetime l => rfl

@[simp] theorem BoundList.tokens_relabel (bs : BoundList) :
    (bs.relabel f).tokens = bs.tokens.map (Token.relabel f) := by
  cases bs with
  | one b => simp [BoundList.relabel, BoundList.tokens, BoundTree.tokens_relabel b]
  | more front sep b =>
    simp [BoundList.relabel, BoundList.tokens, BoundList.tokens_relabel front,
      BoundTree.tokens_relabel b]

theorem BoundTree.tokens_relabel (b : BoundTree) :
    (b.relabel f).tokens = b.tokens.map (Token.relabel f) := by
  cases b with
  | path p => simp [BoundTree.relabel, BoundTree.tokens, PathTree.tokens_relabel p]
  | lifetime l => rfl

end

@[simp] theorem GenericTree.tokens_relabel (g : GenericTree) :
    (g.relabel f).tokens = g.tokens.map (Token.relabel f) := by
  cases g with
  | lifetime name bounds =>
    cases bounds <;>
      simp [GenericTree.relabel, GenericTree.tokens, optional,
        Chain.tokens_relabel Lexeme.token_relabel]
  | type name bounds => cases bounds <;> simp [GenericTree.relabel, GenericTree.tokens, optional]
  | const word name colon ty => simp [GenericTree.relabel, GenericTree.tokens]

@[simp] theorem GenericsTree.tokens_relabel (g : GenericsTree) :
    (g.relabel f).tokens = g.tokens.map (Token.relabel f) := by
  simp [GenericsTree.relabel, GenericsTree.tokens, Series.tokens_relabel GenericTree.tokens_relabel]

mutual

@[simp] theorem PatternTree.tokens_relabel (p : PatternTree) :
    (p.relabel f).tokens = p.tokens.map (Token.relabel f) := by
  cases p with
  | name mutable name => simp [PatternTree.relabel, PatternTree.tokens]
  | wildcard l => rfl
  | unit opens closes => rfl
  | tuple opens items trailing closes =>
    simp [PatternTree.relabel, PatternTree.tokens, PatternList.tokens_relabel items]

theorem PatternList.tokens_relabel (ps : PatternList) :
    (ps.relabel f).tokens = ps.tokens.map (Token.relabel f) := by
  cases ps with
  | one p => simp [PatternList.relabel, PatternList.tokens, PatternTree.tokens_relabel p]
  | more front sep p =>
    simp [PatternList.relabel, PatternList.tokens, PatternList.tokens_relabel front,
      PatternTree.tokens_relabel p]

end

@[simp] theorem SelfTree.tokens_relabel (s : SelfTree) :
    (s.relabel f).tokens = s.tokens.map (Token.relabel f) := by
  cases s <;> simp [SelfTree.relabel, SelfTree.tokens]

@[simp] theorem ParamBody.tokens_relabel (p : ParamBody) :
    (p.relabel f).tokens = p.tokens.map (Token.relabel f) := by
  cases p <;> simp [ParamBody.relabel, ParamBody.tokens]

@[simp] theorem ParamTree.tokens_relabel (p : ParamTree) :
    (p.relabel f).tokens = p.tokens.map (Token.relabel f) := by
  simp [ParamTree.relabel, ParamTree.tokens, flatMap_relabel ParamAttrTree.tokens_relabel]

@[simp] theorem Visibility.tokens_relabel (v : Visibility) :
    (v.relabel f).tokens = v.tokens.map (Token.relabel f) := by
  obtain ⟨word, restriction⟩ := v
  cases restriction <;> simp [Visibility.relabel, Visibility.tokens, optional, Restriction.relabel]

@[simp] theorem FnEnd.tokens_relabel (e : FnEnd) :
    (e.relabel f).tokens = e.tokens.map (Token.relabel f) := by
  cases e <;> rfl

theorem optional_result_relabel (o : Option (Lexeme .arrow × TypeTree)) :
    optional (fun r => r.1.token ++ r.2.tokens) (o.map (relabelResult f)) =
      (optional (fun r => r.1.token ++ r.2.tokens) o).map (Token.relabel f) := by
  cases o <;> simp [optional, relabelResult]

@[simp] theorem FnTree.tokens_relabel (t : FnTree) :
    (t.relabel f).tokens = t.tokens.map (Token.relabel f) := by
  simp [FnTree.relabel, FnTree.tokens, optional_relabel Visibility.tokens_relabel,
    optional_relabel GenericsTree.tokens_relabel, Group.tokens_relabel ParamTree.tokens_relabel,
    optional_result_relabel]

@[simp] theorem ConstTree.tokens_relabel (c : ConstTree) :
    (c.relabel f).tokens = c.tokens.map (Token.relabel f) := by
  simp [ConstTree.relabel, ConstTree.tokens, optional_relabel Visibility.tokens_relabel]

@[simp] theorem MemberBody.tokens_relabel (m : MemberBody) :
    (m.relabel f).tokens = m.tokens.map (Token.relabel f) := by
  cases m <;> simp [MemberBody.relabel, MemberBody.tokens]

@[simp] theorem MemberTree.tokens_relabel (m : MemberTree) :
    (m.relabel f).tokens = m.tokens.map (Token.relabel f) := by
  simp [MemberTree.relabel, MemberTree.tokens, flatMap_relabel AttrTree.tokens_relabel]

@[simp] theorem BlockHead.tokens_relabel (h : BlockHead) :
    (h.relabel f).tokens = h.tokens.map (Token.relabel f) := by
  simp [BlockHead.relabel, BlockHead.tokens, optional_relabel GenericsTree.tokens_relabel]

@[simp] theorem BlockTree.tokens_relabel (b : BlockTree) :
    (b.relabel f).tokens = b.tokens.map (Token.relabel f) := by
  simp [BlockTree.relabel, BlockTree.tokens, flatMap_relabel MemberTree.tokens_relabel]

end NativeBinding.Grammar
