import NativeBinding.Grammar.Tree
import NativeBinding.Proofs.Grammar.Rules

/-!
Concrete syntax trees as derivations. The parts of a tree are what stands right below its node, and
they are a forest of its rule with the tokens of the tree. So every list of items that a text is
read to is a derivation of its lexemes.
-/

namespace NativeBinding.Grammar

open NativeBinding.Grammar.Derivation (tokensAll)

def Lexeme.part {kind : Terminal} (l : Lexeme kind) : List Derivation :=
  [.lexeme ⟨kind, l⟩]

def node (n : Nonterminal) (parts : List Derivation) : List Derivation :=
  [.node n parts]

def maybeParts {α : Type} (f : α → List Derivation) : Option α → List Derivation
  | none => []
  | some a => f a

def Chain.parts {mark : Terminal} {α : Type} (f : α → List Derivation) :
    Chain mark α → List Derivation
  | one a => f a
  | more front sep a => front.parts f ++ (sep.part ++ f a)

def Series.parts {α : Type} (f : α → List Derivation) (s : Series α) : List Derivation :=
  s.items.parts f ++ maybeParts Lexeme.part s.trailing

def Route.parts (r : Route) : List Derivation :=
  Chain.parts Lexeme.part r

def Literal.parts : Literal → List Derivation
  | string l => l.part
  | number l => l.part
  | yes l => l.part
  | no l => l.part

def MetaItem.parts : MetaItem → List Derivation
  | route r => node .attrPath r.parts
  | assign r eq value => node .attrPath r.parts ++ eq.part ++ node .lit value.parts
  | literal value => node .lit value.parts

def Meta.parts : Meta → List Derivation
  | word r => node .attrPath r.parts
  | list r items =>
      node .attrPath r.parts ++ items.opens.part ++
        maybeParts (fun s => node .metaArgs (s.parts fun i => node .metaArg i.parts)) items.items ++
        items.closes.part
  | value r eq v => node .attrPath r.parts ++ eq.part ++ node .lit v.parts

def AttrTree.parts : AttrTree → List Derivation
  | doc comment => comment.part
  | written hash bang opens content closes =>
      hash.part ++ maybeParts Lexeme.part bang ++ opens.part ++ node .attrMeta content.parts ++
        closes.part

def ParamAttrTree.parts (a : ParamAttrTree) : List Derivation :=
  a.hash.part ++ a.opens.part ++ node .attrMeta a.content.parts ++ a.closes.part

def ObjectWord.node : ObjectWord → Nonterminal
  | impl _ => .implType
  | dyn _ => .dynType

def ObjectWord.parts : ObjectWord → List Derivation
  | impl l => l.part
  | dyn l => l.part

def ArrayLength.parts : ArrayLength → List Derivation
  | number l => l.part
  | ident l => l.part

mutual

def TypeTree.parts : TypeTree → List Derivation
  | .path p => node .pathType p.parts
  | .ref amp life mutable target =>
      node .refType (amp.part ++ maybeParts Lexeme.part life ++ maybeParts Lexeme.part mutable ++
        node .type target.parts)
  | .unit opens closes => node .tupleType (opens.part ++ [] ++ closes.part)
  | .tuple opens items trailing closes =>
      node .tupleType (opens.part ++ (items.parts ++ maybeParts Lexeme.part trailing) ++
        closes.part)
  | .slice opens item closes =>
      node .sliceType (opens.part ++ node .type item.parts ++ [] ++ closes.part)
  | .array opens item semi length closes =>
      node .sliceType (opens.part ++ node .type item.parts ++ (semi.part ++ length.parts) ++
        closes.part)
  | .object word bounds => node word.node (word.parts ++ bounds.parts)
  | .inferred l => node .inferType l.part

def TypeList.parts : TypeList → List Derivation
  | .one t => node .type t.parts
  | .more front sep t => front.parts ++ (sep.part ++ node .type t.parts)

def PathTree.parts : PathTree → List Derivation
  | .one s => node .pathSeg s.parts
  | .more front sep s => front.parts ++ (sep.part ++ node .pathSeg s.parts)

def SegmentTree.parts : SegmentTree → List Derivation
  | .plain name => name.part ++ []
  | .generic name opens args trailing closes =>
      name.part ++ node .genericArgs (opens.part ++
        (args.parts ++ maybeParts Lexeme.part trailing) ++ closes.part)

def ArgList.parts : ArgList → List Derivation
  | .one a => node .genericArg a.parts
  | .more front sep a => front.parts ++ (sep.part ++ node .genericArg a.parts)

def ArgTree.parts : ArgTree → List Derivation
  | .type t => node .type t.parts
  | .lifetime l => l.part

def BoundList.parts : BoundList → List Derivation
  | .one b => node .typeBound b.parts
  | .more front sep b => front.parts ++ (sep.part ++ node .typeBound b.parts)

def BoundTree.parts : BoundTree → List Derivation
  | .path p => node .pathType p.parts
  | .lifetime l => l.part

end

def GenericTree.parts : GenericTree → List Derivation
  | lifetime name bounds =>
      name.part ++ maybeParts (fun b => b.1.part ++ b.2.parts Lexeme.part) bounds
  | type name bounds => name.part ++ maybeParts (fun b => b.1.part ++ b.2.parts) bounds
  | const word name colon ty => word.part ++ name.part ++ colon.part ++ node .type ty.parts

def GenericsTree.parts (g : GenericsTree) : List Derivation :=
  g.opens.part ++ g.params.parts (fun p => node .genericParam p.parts) ++ g.closes.part

mutual

def PatternTree.parts : PatternTree → List Derivation
  | .name mutable name => maybeParts Lexeme.part mutable ++ name.part
  | .wildcard l => l.part
  | .unit opens closes => opens.part ++ [] ++ closes.part
  | .tuple opens items trailing closes =>
      opens.part ++ (items.parts ++ maybeParts Lexeme.part trailing) ++ closes.part

def PatternList.parts : PatternList → List Derivation
  | .one p => node .pattern p.parts
  | .more front sep p => front.parts ++ (sep.part ++ node .pattern p.parts)

end

def SelfTree.parts : SelfTree → List Derivation
  | value mutable word => maybeParts Lexeme.part mutable ++ word.part
  | ref amp life mutable word =>
      amp.part ++ maybeParts Lexeme.part life ++ maybeParts Lexeme.part mutable ++ word.part

def ParamBody.parts : ParamBody → List Derivation
  | receiver s => node .selfParam s.parts
  | typed pattern colon type =>
      node .typedParam (node .pattern pattern.parts ++ colon.part ++ node .type type.parts)

def ParamTree.parts (p : ParamTree) : List Derivation :=
  node .paramAttrs (p.attrs.flatMap fun a => node .paramAttr a.parts) ++ p.body.parts

def Visibility.parts (v : Visibility) : List Derivation :=
  v.word.part ++
    maybeParts (fun r : Restriction => r.opens.part ++ r.name.part ++ r.closes.part) v.restriction

def FnEnd.parts : FnEnd → List Derivation
  | semicolon l => l.part
  | block opens closes => node .block (opens.part ++ closes.part)

def FnTree.parts (f : FnTree) : List Derivation :=
  maybeParts (fun v => node .visibility v.parts) f.visibility ++
    maybeParts Lexeme.part f.asynchronous ++ f.word.part ++ f.name.part ++
    maybeParts (fun g => node .generics g.parts) f.generics ++ f.params.opens.part ++
    maybeParts (fun s => node .params (s.parts fun p => node .param p.parts)) f.params.items ++
    f.params.closes.part ++
    maybeParts (fun r => node .retType (r.1.part ++ node .type r.2.parts)) f.result ++
    f.ending.parts

def ConstTree.parts (c : ConstTree) : List Derivation :=
  maybeParts (fun v => node .visibility v.parts) c.visibility ++ c.word.part ++ c.name.part ++
    c.colon.part ++ node .type c.type.parts ++ c.eq.part ++ c.value.part ++ c.semi.part

def MemberBody.parts : MemberBody → List Derivation
  | fn f => node .fnDef f.parts
  | const c => node .constDef c.parts

def MemberTree.parts (m : MemberTree) : List Derivation :=
  node .attrs (m.attrs.flatMap fun a => node .outerAttr a.parts) ++ m.body.parts

def BlockTree.parts (b : BlockTree) : List Derivation :=
  b.head.word.part ++ maybeParts (fun g => node .generics g.parts) b.head.generics ++
    node .type b.head.subject.parts ++ b.head.opens.part ++
    (b.members.flatMap fun m => node .implMember m.parts) ++ b.closes.part

def ItemBody.parts : ItemBody → List Derivation
  | member m => m.parts
  | block b => node .implDef b.parts

def ItemTree.parts (i : ItemTree) : List Derivation :=
  node .attrs (i.attrs.flatMap fun a => node .outerAttr a.parts) ++ node .itemBody i.body.parts

def fileNode (items : List ItemTree) : Derivation :=
  .node .start (items.flatMap fun i => node .item i.parts)

theorem Lexeme.forest {kind : Terminal} (l : Lexeme kind) : Forest (lex kind) l.part :=
  .lexeme l

theorem forest_node {n : Nonterminal} {ds : List Derivation} (h : Forest n.rule ds) :
    Forest (sub n) (node n ds) :=
  .node h

theorem forest_maybe {α : Type} {l : Form} {f : α → List Derivation} (h : ∀ a, Forest l (f a))
    (o : Option α) : Forest (maybe l) (maybeParts f o) := by
  cases o with
  | none => exact .absent
  | some a => exact (h a).present

theorem Chain.forest {mark : Terminal} {α : Type} {l : Form} {f : α → List Derivation}
    (h : ∀ a, Forest l (f a)) (c : Chain mark α) : Forest (separated mark l) (c.parts f) := by
  induction c with
  | one a => exact (h a).one
  | more front sep a ih => exact ih.more sep.forest (h a)

theorem Series.forest {α : Type} {l : Form} {f : α → List Derivation} (h : ∀ a, Forest l (f a))
    (s : Series α) : Forest (series l) (s.parts f) :=
  (s.items.forest h).append (forest_maybe Lexeme.forest s.trailing)

theorem Route.forest (r : Route) : Forest Nonterminal.attrPath.rule r.parts :=
  Chain.forest Lexeme.forest r

theorem Literal.forest (l : Literal) : Forest Nonterminal.lit.rule l.parts := by
  cases l with
  | string l => exact l.forest.left.left.left
  | number l => exact l.forest.right.left.left
  | yes l => exact l.forest.right.left
  | no l => exact l.forest.right

theorem MetaItem.forest (i : MetaItem) : Forest Nonterminal.metaArg.rule i.parts := by
  cases i with
  | route r => exact (forest_node r.forest).left.left
  | assign r eq value =>
    exact (((forest_node r.forest).append eq.forest).append (forest_node value.forest)).right.left
  | literal value => exact (forest_node value.forest).right

theorem Meta.forest (m : Meta) : Forest Nonterminal.attrMeta.rule m.parts := by
  cases m with
  | word r => exact (forest_node r.forest).left.left
  | list r items =>
    have hitems := forest_maybe (l := sub .metaArgs)
      (fun s : Series MetaItem => forest_node (s.forest fun i => forest_node i.forest)) items.items
    exact ((((forest_node r.forest).append items.opens.forest).append hitems).append
      items.closes.forest).right.left
  | value r eq value =>
    exact (((forest_node r.forest).append eq.forest).append (forest_node value.forest)).right

theorem AttrTree.forest (a : AttrTree) : Forest Nonterminal.outerAttr.rule a.parts := by
  cases a with
  | doc comment => exact comment.forest.right
  | written hash bang opens content closes =>
    exact ((((hash.forest.append (forest_maybe Lexeme.forest bang)).append opens.forest).append
      (forest_node content.forest)).append closes.forest).left

theorem ParamAttrTree.forest (a : ParamAttrTree) : Forest Nonterminal.paramAttr.rule a.parts :=
  ((a.hash.forest.append a.opens.forest).append (forest_node a.content.forest)).append
    a.closes.forest

theorem ArrayLength.forest (n : ArrayLength) : Forest (lex .number + lex .ident) n.parts := by
  cases n with
  | number l => exact l.forest.left
  | ident l => exact l.forest.right

mutual

theorem TypeTree.forest : ∀ t : TypeTree, Forest Nonterminal.type.rule t.parts
  | .path p => (forest_node p.forest).left.left.left.left.left.left
  | .ref amp life mutable target =>
      (forest_node (n := .refType) (((amp.forest.append (forest_maybe Lexeme.forest life)).append
        (forest_maybe Lexeme.forest mutable)).append
          (forest_node target.forest))).right.left.left.left.left.left
  | .unit opens closes =>
      (forest_node (n := .tupleType)
        ((opens.forest.append .absent).append closes.forest)).right.left.left.left.left
  | .tuple opens items trailing closes =>
      (forest_node (n := .tupleType) ((opens.forest.append
        (items.forest.append (forest_maybe Lexeme.forest trailing)).present).append
          closes.forest)).right.left.left.left.left
  | .slice opens item closes =>
      (forest_node (n := .sliceType) (((opens.forest.append (forest_node item.forest)).append
        .absent).append closes.forest)).right.left.left.left
  | .array opens item semi length closes =>
      (forest_node (n := .sliceType) (((opens.forest.append (forest_node item.forest)).append
        (semi.forest.append length.forest).present).append
          closes.forest)).right.left.left.left
  | .object (.impl l) bounds =>
      (forest_node (n := .implType) (l.forest.append bounds.forest)).right.left.left
  | .object (.dyn l) bounds =>
      (forest_node (n := .dynType) (l.forest.append bounds.forest)).right.left
  | .inferred l => (forest_node (n := .inferType) l.forest).right

theorem TypeList.forest : ∀ ts : TypeList, Forest (separated .comma (sub .type)) ts.parts
  | .one t => (forest_node t.forest).one
  | .more front sep t => front.forest.more sep.forest (forest_node t.forest)

theorem PathTree.forest : ∀ p : PathTree, Forest Nonterminal.pathType.rule p.parts
  | .one s => (forest_node s.forest).one
  | .more front sep s => Forest.more front.forest sep.forest (forest_node s.forest)

theorem SegmentTree.forest : ∀ s : SegmentTree, Forest Nonterminal.pathSeg.rule s.parts
  | .plain name => name.forest.append .absent
  | .generic name opens args trailing closes =>
      name.forest.append (forest_node (n := .genericArgs) ((opens.forest.append
        (args.forest.append (forest_maybe Lexeme.forest trailing))).append
          closes.forest)).present

theorem ArgList.forest : ∀ as : ArgList, Forest (separated .comma (sub .genericArg)) as.parts
  | .one a => (forest_node a.forest).one
  | .more front sep a => front.forest.more sep.forest (forest_node a.forest)

theorem ArgTree.forest : ∀ a : ArgTree, Forest Nonterminal.genericArg.rule a.parts
  | .type t => (forest_node t.forest).left
  | .lifetime l => l.forest.right

theorem BoundList.forest : ∀ bs : BoundList, Forest (separated .plus (sub .typeBound)) bs.parts
  | .one b => (forest_node b.forest).one
  | .more front sep b => front.forest.more sep.forest (forest_node b.forest)

theorem BoundTree.forest : ∀ b : BoundTree, Forest Nonterminal.typeBound.rule b.parts
  | .path p => (forest_node p.forest).left
  | .lifetime l => l.forest.right

end

theorem GenericTree.forest (g : GenericTree) : Forest Nonterminal.genericParam.rule g.parts := by
  cases g with
  | lifetime name bounds =>
    exact (name.forest.append (forest_maybe
      (fun b => b.1.forest.append (b.2.forest Lexeme.forest)) bounds)).left.left
  | type name bounds =>
    exact (name.forest.append (forest_maybe
      (fun b => b.1.forest.append b.2.forest) bounds)).right.left
  | const word name colon type =>
    exact (((word.forest.append name.forest).append colon.forest).append
      (forest_node type.forest)).right

theorem GenericsTree.forest (g : GenericsTree) : Forest Nonterminal.generics.rule g.parts :=
  (g.opens.forest.append (g.params.forest fun p => forest_node p.forest)).append g.closes.forest

mutual

theorem PatternTree.forest : ∀ p : PatternTree, Forest Nonterminal.pattern.rule p.parts
  | .name mutable name => ((forest_maybe Lexeme.forest mutable).append name.forest).left.left
  | .wildcard l => l.forest.right.left
  | .unit opens closes => ((opens.forest.append .absent).append closes.forest).right
  | .tuple opens items trailing closes =>
      ((opens.forest.append
        (items.forest.append (forest_maybe Lexeme.forest trailing)).present).append
          closes.forest).right

theorem PatternList.forest : ∀ ps : PatternList, Forest (separated .comma (sub .pattern)) ps.parts
  | .one p => (forest_node p.forest).one
  | .more front sep p => front.forest.more sep.forest (forest_node p.forest)

end

theorem SelfTree.forest (s : SelfTree) : Forest Nonterminal.selfParam.rule s.parts := by
  cases s with
  | value mutable word => exact ((forest_maybe Lexeme.forest mutable).append word.forest).right
  | ref amp life mutable word =>
    exact (((amp.forest.append (forest_maybe Lexeme.forest life)).append
      (forest_maybe Lexeme.forest mutable)).append word.forest).left

theorem ParamBody.forest (b : ParamBody) : Forest (sub .selfParam + sub .typedParam) b.parts := by
  cases b with
  | receiver s => exact (forest_node s.forest).left
  | typed pattern colon type =>
    exact (forest_node (n := .typedParam) (((forest_node pattern.forest).append
      colon.forest).append (forest_node type.forest))).right

theorem ParamTree.forest (p : ParamTree) : Forest Nonterminal.param.rule p.parts :=
  (forest_node (n := .paramAttrs) (.star fun a _ => forest_node a.forest)).append p.body.forest

theorem Visibility.forest (v : Visibility) : Forest Nonterminal.visibility.rule v.parts :=
  v.word.forest.append (forest_maybe
    (fun r => (r.opens.forest.append r.name.forest).append r.closes.forest) v.restriction)

theorem FnEnd.forest (e : FnEnd) : Forest (lex .semicolon + sub .block) e.parts := by
  cases e with
  | semicolon l => exact l.forest.left
  | block opens closes =>
    exact (forest_node (n := .block) (opens.forest.append closes.forest)).right

theorem FnTree.forest (f : FnTree) : Forest Nonterminal.fnDef.rule f.parts := by
  have hvisibility := forest_maybe (l := sub .visibility) (fun v => forest_node v.forest)
    f.visibility
  have hgenerics := forest_maybe (l := sub .generics) (fun g => forest_node g.forest) f.generics
  have hparams := forest_maybe (l := sub .params) (fun s : Series ParamTree =>
    forest_node (s.forest fun p => forest_node p.forest)) f.params.items
  have hresult := forest_maybe (l := sub .retType) (fun r : Lexeme .arrow × TypeTree =>
    forest_node (r.1.forest.append (forest_node r.2.forest))) f.result
  exact ((((((((hvisibility.append (forest_maybe Lexeme.forest f.asynchronous)).append
    f.word.forest).append f.name.forest).append hgenerics).append f.params.opens.forest).append
    hparams).append f.params.closes.forest).append hresult).append f.ending.forest

theorem ConstTree.forest (c : ConstTree) : Forest Nonterminal.constDef.rule c.parts :=
  (((((((forest_maybe (fun v => forest_node v.forest) c.visibility).append c.word.forest).append
    c.name.forest).append c.colon.forest).append (forest_node c.type.forest)).append
    c.eq.forest).append c.value.forest).append c.semi.forest

theorem MemberBody.forest (m : MemberBody) : Forest (sub .fnDef + sub .constDef) m.parts := by
  cases m with
  | fn f => exact (forest_node f.forest).left
  | const c => exact (forest_node c.forest).right

theorem forest_attrs (as : List AttrTree) :
    Forest (sub .attrs) (node .attrs (as.flatMap fun a => node .outerAttr a.parts)) :=
  forest_node (.star fun a _ => forest_node a.forest)

theorem MemberTree.forest (m : MemberTree) : Forest Nonterminal.implMember.rule m.parts :=
  (forest_attrs m.attrs).append m.body.forest

theorem BlockTree.forest (b : BlockTree) : Forest Nonterminal.implDef.rule b.parts :=
  ((((b.head.word.forest.append
    (forest_maybe (fun g => forest_node g.forest) b.head.generics)).append
    (forest_node b.head.subject.forest)).append b.head.opens.forest).append
    (.star fun m _ => forest_node m.forest)).append b.closes.forest

theorem ItemBody.forest (b : ItemBody) : Forest Nonterminal.itemBody.rule b.parts := by
  cases b with
  | member m => exact m.forest.left
  | block b => exact (forest_node b.forest).right

theorem ItemTree.forest (i : ItemTree) : Forest Nonterminal.item.rule i.parts :=
  (forest_attrs i.attrs).append (forest_node i.body.forest)

theorem valid_fileNode (items : List ItemTree) : (fileNode items).Valid := by
  have h : Forest Nonterminal.start.rule (items.flatMap fun i => node .item i.parts) :=
    .star fun i _ => forest_node i.forest
  exact .node h.symbols h.valid

attribute [simp] Derivation.tokensAll_append

@[simp] theorem tokensAll_nil : tokensAll [] = [] :=
  rfl

@[simp] theorem tokensAll_part {kind : Terminal} (l : Lexeme kind) : tokensAll l.part = l.token :=
  rfl

@[simp] theorem tokensAll_node (n : Nonterminal) (ds : List Derivation) :
    tokensAll (node n ds) = tokensAll ds := by
  rw [node, tokensAll, Derivation.tokens, tokensAll, List.append_nil]

section

variable {α : Type} {f : α → List Derivation} {g : α → List Token}

theorem tokensAll_maybeParts (h : ∀ a, tokensAll (f a) = g a) (o : Option α) :
    tokensAll (maybeParts f o) = optional g o := by
  cases o with
  | none => rfl
  | some a => exact h a

theorem tokensAll_flatMap (h : ∀ a, tokensAll (f a) = g a) (as : List α) :
    tokensAll (as.flatMap f) = as.flatMap g := by
  induction as with
  | nil => rfl
  | cons a as ih => rw [List.flatMap_cons, Derivation.tokensAll_append, h, ih, List.flatMap_cons]

theorem Chain.tokensAll_parts {mark : Terminal} (h : ∀ a, tokensAll (f a) = g a)
    (c : Chain mark α) : tokensAll (c.parts f) = c.tokens g := by
  induction c with
  | one a => exact h a
  | more front sep a ih => simp [parts, tokens, h, ih, Lexeme.token]

theorem Series.tokensAll_parts (h : ∀ a, tokensAll (f a) = g a) (s : Series α) :
    tokensAll (s.parts f) = s.tokens g := by
  simp [parts, tokens, s.items.tokensAll_parts h, tokensAll_maybeParts tokensAll_part]

end

@[simp] theorem tokensAll_maybePart {kind : Terminal} (o : Option (Lexeme kind)) :
    tokensAll (maybeParts Lexeme.part o) = optional Lexeme.token o :=
  tokensAll_maybeParts tokensAll_part o

@[simp] theorem Route.tokensAll_parts (r : Route) : tokensAll r.parts = r.tokens :=
  Chain.tokensAll_parts tokensAll_part r

@[simp] theorem Literal.tokensAll_parts (l : Literal) : tokensAll l.parts = l.tokens := by
  cases l <;> rfl

@[simp] theorem MetaItem.tokensAll_parts (i : MetaItem) : tokensAll i.parts = i.tokens := by
  cases i <;> simp [parts, tokens]

@[simp] theorem Meta.tokensAll_parts (m : Meta) : tokensAll m.parts = m.tokens := by
  cases m with
  | list r items =>
    have hitems := tokensAll_maybeParts (f := fun s : Series MetaItem =>
      node .metaArgs (s.parts fun i => node .metaArg i.parts)) (g := Series.tokens MetaItem.tokens)
      fun s => by rw [tokensAll_node, s.tokensAll_parts (g := MetaItem.tokens) (by simp)]
    simp [parts, tokens, Group.tokens, hitems]
  | _ => simp [parts, tokens]

@[simp] theorem AttrTree.tokensAll_parts (a : AttrTree) : tokensAll a.parts = a.tokens := by
  cases a <;> simp [parts, tokens]

@[simp] theorem ParamAttrTree.tokensAll_parts (a : ParamAttrTree) :
    tokensAll a.parts = a.tokens := by
  simp [parts, tokens]

@[simp] theorem ObjectWord.tokensAll_parts (w : ObjectWord) : tokensAll w.parts = w.tokens := by
  cases w <;> rfl

@[simp] theorem ArrayLength.tokensAll_parts (n : ArrayLength) : tokensAll n.parts = n.tokens := by
  cases n <;> rfl

mutual

@[simp] theorem TypeTree.tokensAll_parts : ∀ t : TypeTree, tokensAll t.parts = t.tokens
  | .path p => by simp [TypeTree.parts, TypeTree.tokens, p.tokensAll_parts]
  | .ref amp life mutable target => by
      simp [TypeTree.parts, TypeTree.tokens, target.tokensAll_parts]
  | .unit opens closes => by simp [TypeTree.parts, TypeTree.tokens]
  | .tuple opens items trailing closes => by
      simp [TypeTree.parts, TypeTree.tokens, items.tokensAll_parts]
  | .slice opens item closes => by simp [TypeTree.parts, TypeTree.tokens, item.tokensAll_parts]
  | .array opens item semi length closes => by
      simp [TypeTree.parts, TypeTree.tokens, item.tokensAll_parts]
  | .object word bounds => by simp [TypeTree.parts, TypeTree.tokens, bounds.tokensAll_parts]
  | .inferred l => by simp [TypeTree.parts, TypeTree.tokens]

@[simp] theorem TypeList.tokensAll_parts : ∀ ts : TypeList, tokensAll ts.parts = ts.tokens
  | .one t => by simp [TypeList.parts, TypeList.tokens, t.tokensAll_parts]
  | .more front sep t => by
      simp [TypeList.parts, TypeList.tokens, front.tokensAll_parts, t.tokensAll_parts]

@[simp] theorem PathTree.tokensAll_parts : ∀ p : PathTree, tokensAll p.parts = p.tokens
  | .one s => by simp [PathTree.parts, PathTree.tokens, s.tokensAll_parts]
  | .more front sep s => by
      simp [PathTree.parts, PathTree.tokens, front.tokensAll_parts, s.tokensAll_parts]

@[simp] theorem SegmentTree.tokensAll_parts : ∀ s : SegmentTree, tokensAll s.parts = s.tokens
  | .plain name => by simp [SegmentTree.parts, SegmentTree.tokens]
  | .generic name opens args trailing closes => by
      simp [SegmentTree.parts, SegmentTree.tokens, args.tokensAll_parts]

@[simp] theorem ArgList.tokensAll_parts : ∀ as : ArgList, tokensAll as.parts = as.tokens
  | .one a => by simp [ArgList.parts, ArgList.tokens, a.tokensAll_parts]
  | .more front sep a => by
      simp [ArgList.parts, ArgList.tokens, front.tokensAll_parts, a.tokensAll_parts]

@[simp] theorem ArgTree.tokensAll_parts : ∀ a : ArgTree, tokensAll a.parts = a.tokens
  | .type t => by simp [ArgTree.parts, ArgTree.tokens, t.tokensAll_parts]
  | .lifetime l => by simp [ArgTree.parts, ArgTree.tokens]

@[simp] theorem BoundList.tokensAll_parts : ∀ bs : BoundList, tokensAll bs.parts = bs.tokens
  | .one b => by simp [BoundList.parts, BoundList.tokens, b.tokensAll_parts]
  | .more front sep b => by
      simp [BoundList.parts, BoundList.tokens, front.tokensAll_parts, b.tokensAll_parts]

@[simp] theorem BoundTree.tokensAll_parts : ∀ b : BoundTree, tokensAll b.parts = b.tokens
  | .path p => by simp [BoundTree.parts, BoundTree.tokens, p.tokensAll_parts]
  | .lifetime l => by simp [BoundTree.parts, BoundTree.tokens]

end

@[simp] theorem GenericTree.tokensAll_parts (g : GenericTree) : tokensAll g.parts = g.tokens := by
  cases g with
  | lifetime name bounds =>
    have hbounds := tokensAll_maybeParts
      (f := fun b : Lexeme .colon × Chain .plus (Lexeme .lifetime) =>
        b.1.part ++ b.2.parts Lexeme.part) (g := fun b => b.1.token ++ b.2.tokens Lexeme.token)
      fun b => by simp [b.2.tokensAll_parts tokensAll_part]
    simp [parts, tokens, hbounds]
  | type name bounds =>
    have hbounds := tokensAll_maybeParts (f := fun b : Lexeme .colon × BoundList =>
      b.1.part ++ b.2.parts) (g := fun b => b.1.token ++ b.2.tokens) fun b => by simp
    simp [parts, tokens, hbounds]
  | const word name colon type => simp [parts, tokens]

@[simp] theorem GenericsTree.tokensAll_parts (g : GenericsTree) :
    tokensAll g.parts = g.tokens := by
  simp [parts, tokens, g.params.tokensAll_parts (g := GenericTree.tokens)]

mutual

@[simp] theorem PatternTree.tokensAll_parts : ∀ p : PatternTree, tokensAll p.parts = p.tokens
  | .name mutable name => by simp [PatternTree.parts, PatternTree.tokens]
  | .wildcard l => by simp [PatternTree.parts, PatternTree.tokens]
  | .unit opens closes => by simp [PatternTree.parts, PatternTree.tokens]
  | .tuple opens items trailing closes => by
      simp [PatternTree.parts, PatternTree.tokens, items.tokensAll_parts]

@[simp] theorem PatternList.tokensAll_parts : ∀ ps : PatternList, tokensAll ps.parts = ps.tokens
  | .one p => by simp [PatternList.parts, PatternList.tokens, p.tokensAll_parts]
  | .more front sep p => by
      simp [PatternList.parts, PatternList.tokens, front.tokensAll_parts, p.tokensAll_parts]

end

@[simp] theorem SelfTree.tokensAll_parts (s : SelfTree) : tokensAll s.parts = s.tokens := by
  cases s <;> simp [parts, tokens]

@[simp] theorem ParamBody.tokensAll_parts (b : ParamBody) : tokensAll b.parts = b.tokens := by
  cases b <;> simp [parts, tokens]

@[simp] theorem ParamTree.tokensAll_parts (p : ParamTree) : tokensAll p.parts = p.tokens := by
  simp [parts, tokens, tokensAll_flatMap (g := ParamAttrTree.tokens)]

@[simp] theorem Visibility.tokensAll_parts (v : Visibility) : tokensAll v.parts = v.tokens := by
  cases h : v.restriction <;> simp [parts, tokens, h, maybeParts, optional]

@[simp] theorem FnEnd.tokensAll_parts (e : FnEnd) : tokensAll e.parts = e.tokens := by
  cases e <;> simp [parts, tokens]

@[simp] theorem FnTree.tokensAll_parts (f : FnTree) : tokensAll f.parts = f.tokens := by
  have hparams := tokensAll_maybeParts (f := fun s : Series ParamTree =>
    node .params (s.parts fun p => node .param p.parts)) (g := Series.tokens ParamTree.tokens)
    fun s => by rw [tokensAll_node, s.tokensAll_parts (g := ParamTree.tokens) (by simp)]
  have hresult := tokensAll_maybeParts (f := fun r : Lexeme .arrow × TypeTree =>
    node .retType (r.1.part ++ node .type r.2.parts)) (g := fun r => r.1.token ++ r.2.tokens)
    fun r => by simp
  simp [parts, tokens, Group.tokens, hparams, hresult,
    tokensAll_maybeParts (g := Visibility.tokens), tokensAll_maybeParts (g := GenericsTree.tokens)]

@[simp] theorem ConstTree.tokensAll_parts (c : ConstTree) : tokensAll c.parts = c.tokens := by
  simp [parts, tokens, tokensAll_maybeParts (g := Visibility.tokens)]

@[simp] theorem MemberBody.tokensAll_parts (m : MemberBody) : tokensAll m.parts = m.tokens := by
  cases m <;> simp [parts, tokens]

@[simp] theorem MemberTree.tokensAll_parts (m : MemberTree) : tokensAll m.parts = m.tokens := by
  simp [parts, tokens, tokensAll_flatMap (g := AttrTree.tokens)]

@[simp] theorem BlockTree.tokensAll_parts (b : BlockTree) : tokensAll b.parts = b.tokens := by
  simp [parts, tokens, BlockHead.tokens, tokensAll_maybeParts (g := GenericsTree.tokens),
    tokensAll_flatMap (g := MemberTree.tokens)]

@[simp] theorem ItemBody.tokensAll_parts (b : ItemBody) : tokensAll b.parts = b.tokens := by
  cases b <;> simp [parts, tokens]

@[simp] theorem ItemTree.tokensAll_parts (i : ItemTree) : tokensAll i.parts = i.tokens := by
  simp [parts, tokens, tokensAll_flatMap (g := AttrTree.tokens)]

theorem tokens_fileNode (items : List ItemTree) :
    (fileNode items).tokens = items.flatMap ItemTree.tokens := by
  rw [fileNode, Derivation.tokens]
  exact tokensAll_flatMap (fun i => by simp) items

end NativeBinding.Grammar
