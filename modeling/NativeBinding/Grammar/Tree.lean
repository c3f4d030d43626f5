import NativeBinding.Grammar.Terminal

/-!
Concrete syntax trees of declaration files. One type per nonterminal; a tree keeps every lexeme of
its text, in order, so the types are the grammar and `tokens` is the sentence a tree spells. What
the types cannot build is no sentence.
-/

namespace NativeBinding.Grammar

/-- Items held apart by one terminal: `a, b, c`. -/
inductive Chain (mark : Terminal) (α : Type)
  | one (item : α)
  | more (front : Chain mark α) (sep : Lexeme mark) (item : α)

namespace Chain

variable {mark : Terminal} {α : Type}

def toList : Chain mark α → List α
  | one a => [a]
  | more front _ a => front.toList ++ [a]

def tokens (spell : α → List Token) : Chain mark α → List Token
  | one a => spell a
  | more front sep a => front.tokens spell ++ ⟨mark, sep⟩ :: spell a

end Chain

def Lexeme.token {kind : Terminal} (l : Lexeme kind) : List Token :=
  [⟨kind, l⟩]

def optional {α : Type} (spell : α → List Token) : Option α → List Token
  | none => []
  | some a => spell a

/-- At least one item, with or without a comma after the last. -/
structure Series (α : Type) where
  items : Chain .comma α
  trailing : Option (Lexeme .comma)

def Series.toList {α : Type} (s : Series α) : List α :=
  s.items.toList

def Series.tokens {α : Type} (spell : α → List Token) (s : Series α) : List Token :=
  s.items.tokens spell ++ optional Lexeme.token s.trailing

structure Group (α : Type) where
  opens : Lexeme .lparen
  items : Option (Series α)
  closes : Lexeme .rparen

def Group.toList {α : Type} (g : Group α) : List α :=
  (g.items.map Series.toList).getD []

def Group.tokens {α : Type} (spell : α → List Token) (g : Group α) : List Token :=
  g.opens.token ++ optional (Series.tokens spell) g.items ++ g.closes.token

abbrev Route := Chain .colons (Lexeme .ident)

def Route.tokens (r : Route) : List Token :=
  Chain.tokens Lexeme.token r

inductive Literal
  | string (l : Lexeme .string)
  | number (l : Lexeme .number)
  | yes (l : Lexeme .trueWord)
  | no (l : Lexeme .falseWord)

def Literal.tokens : Literal → List Token
  | string l => l.token
  | number l => l.token
  | yes l => l.token
  | no l => l.token

inductive MetaItem
  | route (r : Route)
  | assign (r : Route) (eq : Lexeme .equals) (value : Literal)
  | literal (value : Literal)

def MetaItem.tokens : MetaItem → List Token
  | route r => r.tokens
  | assign r eq value => r.tokens ++ eq.token ++ value.tokens
  | literal value => value.tokens

inductive Meta
  | word (r : Route)
  | list (r : Route) (items : Group MetaItem)
  | value (r : Route) (eq : Lexeme .equals) (value : Literal)

def Meta.tokens : Meta → List Token
  | word r => r.tokens
  | list r items => r.tokens ++ items.tokens MetaItem.tokens
  | value r eq v => r.tokens ++ eq.token ++ v.tokens

inductive AttrTree
  | doc (comment : Lexeme .docComment)
  | written (hash : Lexeme .hash) (bang : Option (Lexeme .bang)) (opens : Lexeme .lbracket)
      (content : Meta) (closes : Lexeme .rbracket)

def AttrTree.tokens : AttrTree → List Token
  | doc comment => comment.token
  | written hash bang opens content closes =>
      hash.token ++ optional Lexeme.token bang ++ opens.token ++ content.tokens ++ closes.token

structure ParamAttrTree where
  hash : Lexeme .hash
  opens : Lexeme .lbracket
  content : Meta
  closes : Lexeme .rbracket

def ParamAttrTree.tokens (a : ParamAttrTree) : List Token :=
  a.hash.token ++ a.opens.token ++ a.content.tokens ++ a.closes.token

inductive ObjectWord
  | impl (l : Lexeme .implWord)
  | dyn (l : Lexeme .dynWord)

def ObjectWord.tokens : ObjectWord → List Token
  | impl l => l.token
  | dyn l => l.token

inductive ArrayLength
  | number (l : Lexeme .number)
  | ident (l : Lexeme .ident)

def ArrayLength.tokens : ArrayLength → List Token
  | number l => l.token
  | ident l => l.token

def ArrayLength.text : ArrayLength → String
  | number l => l.text
  | ident l => l.text

mutual

inductive TypeTree
  | path (p : PathTree)
  | ref (amp : Lexeme .amp) (life : Option (Lexeme .lifetime)) (mutable : Option (Lexeme .mutWord))
      (target : TypeTree)
  | unit (opens : Lexeme .lparen) (closes : Lexeme .rparen)
  | tuple (opens : Lexeme .lparen) (items : TypeList) (trailing : Option (Lexeme .comma))
      (closes : Lexeme .rparen)
  | slice (opens : Lexeme .lbracket) (item : TypeTree) (closes : Lexeme .rbracket)
  | array (opens : Lexeme .lbracket) (item : TypeTree) (semi : Lexeme .semicolon)
      (length : ArrayLength) (closes : Lexeme .rbracket)
  | object (word : ObjectWord) (bounds : BoundList)
  | inferred (l : Lexeme .wildcard)

inductive TypeList
  | one (t : TypeTree)
  | more (front : TypeList) (sep : Lexeme .comma) (t : TypeTree)

inductive PathTree
  | one (s : SegmentTree)
  | more (front : PathTree) (sep : Lexeme .colons) (s : SegmentTree)

inductive SegmentTree
  | plain (name : Lexeme .ident)
  | generic (name : Lexeme .ident) (opens : Lexeme .less) (args : ArgList)
      (trailing : Option (Lexeme .comma)) (closes : Lexeme .greater)

inductive ArgList
  | one (a : ArgTree)
  | more (front : ArgList) (sep : Lexeme .comma) (a : ArgTree)

inductive ArgTree
  | type (t : TypeTree)
  | lifetime (l : Lexeme .lifetime)

inductive BoundList
  | one (b : BoundTree)
  | more (front : BoundList) (sep : Lexeme .plus) (b : BoundTree)

inductive BoundTree
  | path (p : PathTree)
  | lifetime (l : Lexeme .lifetime)

end

mutual

def TypeTree.tokens : TypeTree → List Token
  | .path p => p.tokens
  | .ref amp life mutable target =>
      amp.token ++ optional Lexeme.token life ++ optional Lexeme.token mutable ++ target.tokens
  | .unit opens closes => opens.token ++ closes.token
  | .tuple opens items trailing closes =>
      opens.token ++ items.tokens ++ optional Lexeme.token trailing ++ closes.token
  | .slice opens item closes => opens.token ++ item.tokens ++ closes.token
  | .array opens item semi length closes =>
      opens.token ++ item.tokens ++ semi.token ++ length.tokens ++ closes.token
  | .object word bounds => word.tokens ++ bounds.tokens
  | .inferred l => l.token

def TypeList.tokens : TypeList → List Token
  | .one t => t.tokens
  | .more front sep t => front.tokens ++ sep.token ++ t.tokens

def PathTree.tokens : PathTree → List Token
  | .one s => s.tokens
  | .more front sep s => front.tokens ++ sep.token ++ s.tokens

def SegmentTree.tokens : SegmentTree → List Token
  | .plain name => name.token
  | .generic name opens args trailing closes =>
      name.token ++ opens.token ++ args.tokens ++ optional Lexeme.token trailing ++ closes.token

def ArgList.tokens : ArgList → List Token
  | .one a => a.tokens
  | .more front sep a => front.tokens ++ sep.token ++ a.tokens

def ArgTree.tokens : ArgTree → List Token
  | .type t => t.tokens
  | .lifetime l => l.token

def BoundList.tokens : BoundList → List Token
  | .one b => b.tokens
  | .more front sep b => front.tokens ++ sep.token ++ b.tokens

def BoundTree.tokens : BoundTree → List Token
  | .path p => p.tokens
  | .lifetime l => l.token

end

inductive GenericTree
  | lifetime (name : Lexeme .lifetime)
      (bounds : Option (Lexeme .colon × Chain .plus (Lexeme .lifetime)))
  | type (name : Lexeme .ident) (bounds : Option (Lexeme .colon × BoundList))
  | const (word : Lexeme .constWord) (name : Lexeme .ident) (colon : Lexeme .colon)
      (type : TypeTree)

def GenericTree.tokens : GenericTree → List Token
  | lifetime name bounds =>
      name.token ++ optional (fun b => b.1.token ++ b.2.tokens Lexeme.token) bounds
  | type name bounds => name.token ++ optional (fun b => b.1.token ++ b.2.tokens) bounds
  | const word name colon ty => word.token ++ name.token ++ colon.token ++ ty.tokens

structure GenericsTree where
  opens : Lexeme .less
  params : Series GenericTree
  closes : Lexeme .greater

def GenericsTree.tokens (g : GenericsTree) : List Token :=
  g.opens.token ++ g.params.tokens GenericTree.tokens ++ g.closes.token

mutual

inductive PatternTree
  | name (mutable : Option (Lexeme .mutWord)) (name : Lexeme .ident)
  | wildcard (l : Lexeme .wildcard)
  | unit (opens : Lexeme .lparen) (closes : Lexeme .rparen)
  | tuple (opens : Lexeme .lparen) (items : PatternList) (trailing : Option (Lexeme .comma))
      (closes : Lexeme .rparen)

inductive PatternList
  | one (p : PatternTree)
  | more (front : PatternList) (sep : Lexeme .comma) (p : PatternTree)

end

mutual

def PatternTree.tokens : PatternTree → List Token
  | .name mutable name => optional Lexeme.token mutable ++ name.token
  | .wildcard l => l.token
  | .unit opens closes => opens.token ++ closes.token
  | .tuple opens items trailing closes =>
      opens.token ++ items.tokens ++ optional Lexeme.token trailing ++ closes.token

def PatternList.tokens : PatternList → List Token
  | .one p => p.tokens
  | .more front sep p => front.tokens ++ sep.token ++ p.tokens

end

inductive SelfTree
  | value (mutable : Option (Lexeme .mutWord)) (word : Lexeme .selfWord)
  | ref (amp : Lexeme .amp) (life : Option (Lexeme .lifetime)) (mutable : Option (Lexeme .mutWord))
      (word : Lexeme .selfWord)

def SelfTree.tokens : SelfTree → List Token
  | value mutable word => optional Lexeme.token mutable ++ word.token
  | ref amp life mutable word =>
      amp.token ++ optional Lexeme.token life ++ optional Lexeme.token mutable ++ word.token

inductive ParamBody
  | receiver (s : SelfTree)
  | typed (pattern : PatternTree) (colon : Lexeme .colon) (type : TypeTree)

def ParamBody.tokens : ParamBody → List Token
  | receiver s => s.tokens
  | typed pattern colon type => pattern.tokens ++ colon.token ++ type.tokens

structure ParamTree where
  attrs : List ParamAttrTree
  body : ParamBody

def ParamTree.tokens (p : ParamTree) : List Token :=
  p.attrs.flatMap ParamAttrTree.tokens ++ p.body.tokens

structure Restriction where
  opens : Lexeme .lparen
  name : Lexeme .ident
  closes : Lexeme .rparen

structure Visibility where
  word : Lexeme .pubWord
  restriction : Option Restriction

def Visibility.tokens (v : Visibility) : List Token :=
  v.word.token ++
    optional (fun r => r.opens.token ++ r.name.token ++ r.closes.token) v.restriction

inductive FnEnd
  | semicolon (l : Lexeme .semicolon)
  | block (opens : Lexeme .lbrace) (closes : Lexeme .rbrace)

def FnEnd.tokens : FnEnd → List Token
  | semicolon l => l.token
  | block opens closes => opens.token ++ closes.token

structure FnTree where
  visibility : Option Visibility
  asynchronous : Option (Lexeme .asyncWord)
  word : Lexeme .fnWord
  name : Lexeme .ident
  generics : Option GenericsTree
  params : Group ParamTree
  result : Option (Lexeme .arrow × TypeTree)
  ending : FnEnd

def FnTree.tokens (f : FnTree) : List Token :=
  optional Visibility.tokens f.visibility ++ optional Lexeme.token f.asynchronous ++
    f.word.token ++ f.name.token ++ optional GenericsTree.tokens f.generics ++
    f.params.tokens ParamTree.tokens ++
    optional (fun r => r.1.token ++ r.2.tokens) f.result ++ f.ending.tokens

structure ConstTree where
  visibility : Option Visibility
  word : Lexeme .constWord
  name : Lexeme .ident
  colon : Lexeme .colon
  type : TypeTree
  eq : Lexeme .equals
  value : Lexeme .initializer
  semi : Lexeme .semicolon

def ConstTree.tokens (c : ConstTree) : List Token :=
  optional Visibility.tokens c.visibility ++ c.word.token ++ c.name.token ++ c.colon.token ++
    c.type.tokens ++ c.eq.token ++ c.value.token ++ c.semi.token

inductive MemberBody
  | fn (f : FnTree)
  | const (c : ConstTree)

def MemberBody.tokens : MemberBody → List Token
  | fn f => f.tokens
  | const c => c.tokens

structure MemberTree where
  attrs : List AttrTree
  body : MemberBody

def MemberTree.tokens (m : MemberTree) : List Token :=
  m.attrs.flatMap AttrTree.tokens ++ m.body.tokens

structure BlockHead where
  word : Lexeme .implWord
  generics : Option GenericsTree
  subject : TypeTree
  opens : Lexeme .lbrace

def BlockHead.tokens (h : BlockHead) : List Token :=
  h.word.token ++ optional GenericsTree.tokens h.generics ++ h.subject.tokens ++ h.opens.token

structure BlockTree where
  head : BlockHead
  members : List MemberTree
  closes : Lexeme .rbrace

def BlockTree.tokens (b : BlockTree) : List Token :=
  b.head.tokens ++ b.members.flatMap MemberTree.tokens ++ b.closes.token

inductive ItemBody
  | member (m : MemberBody)
  | block (b : BlockTree)

def ItemBody.tokens : ItemBody → List Token
  | member m => m.tokens
  | block b => b.tokens

structure ItemTree where
  attrs : List AttrTree
  body : ItemBody

def ItemTree.tokens (i : ItemTree) : List Token :=
  i.attrs.flatMap AttrTree.tokens ++ i.body.tokens

end NativeBinding.Grammar
