import NativeBinding.Grammar.Tree

/-!
States of the reader. A state is a declaration file that ends right after a lexeme: the trees that
are finished, and around the one in progress a place for each tree that contains it. `tokens` of
the finished parts are never rearranged, so what a state holds is what has been read. `expects`
lists the terminals that may be recognised next; a terminal outside that list is not even looked
for, and one inside it can still be out of place.
-/

namespace NativeBinding.Grammar

/-- Items read so far, each with the mark after it. -/
abbrev Front (mark : Terminal) (α : Type) := Option (Chain mark α × Lexeme mark)

def Front.add {mark : Terminal} {α : Type} : Front mark α → α → Chain mark α
  | none, a => .one a
  | some (front, sep), a => .more front sep a

inductive Scope
  | file (items : List ItemTree)
  | block (items : List ItemTree) (attrs : List AttrTree) (head : BlockHead)
      (members : List MemberTree)

def Scope.add (attrs : List AttrTree) (body : MemberBody) : Scope → Scope
  | file items => .file (items ++ [⟨attrs, .member body⟩])
  | block items outer head members => .block items outer head (members ++ [⟨attrs, body⟩])

structure DeclPlace where
  scope : Scope
  attrs : List AttrTree
  visibility : Option Visibility

structure BlockPlace where
  items : List ItemTree
  attrs : List AttrTree
  word : Lexeme .implWord

structure ConstPlace where
  decl : DeclPlace
  word : Lexeme .constWord
  name : Lexeme .ident

structure FnPlace where
  decl : DeclPlace
  asynchronous : Option (Lexeme .asyncWord)
  word : Lexeme .fnWord
  name : Lexeme .ident

structure ParamPlace where
  fn : FnPlace
  generics : Option GenericsTree
  opens : Lexeme .lparen
  front : Front .comma ParamTree
  attrs : List ParamAttrTree

structure ResultPlace where
  fn : FnPlace
  generics : Option GenericsTree
  params : Group ParamTree

inductive GenericsOwner
  | fn (place : FnPlace)
  | block (place : BlockPlace)

structure GenericPlace where
  owner : GenericsOwner
  opens : Lexeme .less
  front : Front .comma GenericTree

inductive AttrPlace
  | item (scope : Scope) (attrs : List AttrTree) (hash : Lexeme .hash)
      (bang : Option (Lexeme .bang)) (opens : Lexeme .lbracket)
  | param (place : ParamPlace) (hash : Lexeme .hash) (opens : Lexeme .lbracket)

structure MetaPlace where
  attr : AttrPlace
  route : Route
  opens : Lexeme .lparen
  front : Front .comma MetaItem

inductive RoutePlace
  | content (place : AttrPlace)
  | item (place : MetaPlace)

structure ArgPlace where
  path : Option (PathTree × Lexeme .colons)
  name : Lexeme .ident
  opens : Lexeme .less
  front : Option (ArgList × Lexeme .comma)

mutual

inductive TypePlace
  | const (place : ConstPlace) (colon : Lexeme .colon)
  | param (place : ParamPlace) (pattern : PatternTree) (colon : Lexeme .colon)
  | result (place : ResultPlace) (arrow : Lexeme .arrow)
  | subject (place : BlockPlace) (generics : Option GenericsTree)
  | generic (place : GenericPlace) (word : Lexeme .constWord) (name : Lexeme .ident)
      (colon : Lexeme .colon)
  | target (amp : Lexeme .amp) (life : Option (Lexeme .lifetime))
      (mutable : Option (Lexeme .mutWord)) (outer : TypePlace)
  | component (opens : Lexeme .lparen) (front : Option (TypeList × Lexeme .comma))
      (outer : TypePlace)
  | element (opens : Lexeme .lbracket) (outer : TypePlace)
  | arg (place : ArgPlace) (outer : PathPlace)

inductive PathPlace
  | type (outer : TypePlace)
  | bound (outer : BoundPlace)

inductive BoundPlace
  | object (word : ObjectWord) (front : Option (BoundList × Lexeme .plus)) (outer : TypePlace)
  | generic (place : GenericPlace) (name : Lexeme .ident) (colon : Lexeme .colon)
      (front : Option (BoundList × Lexeme .plus))

end

inductive PatternPlace
  | param (place : ParamPlace)
  | component (opens : Lexeme .lparen) (front : Option (PatternList × Lexeme .comma))
      (outer : PatternPlace)

def addType : Option (TypeList × Lexeme .comma) → TypeTree → TypeList
  | none, t => .one t
  | some (front, sep), t => .more front sep t

def addSegment : Option (PathTree × Lexeme .colons) → SegmentTree → PathTree
  | none, s => .one s
  | some (front, sep), s => .more front sep s

def addArg : Option (ArgList × Lexeme .comma) → ArgTree → ArgList
  | none, a => .one a
  | some (front, sep), a => .more front sep a

def addBound : Option (BoundList × Lexeme .plus) → BoundTree → BoundList
  | none, b => .one b
  | some (front, sep), b => .more front sep b

def addPattern : Option (PatternList × Lexeme .comma) → PatternTree → PatternList
  | none, p => .one p
  | some (front, sep), p => .more front sep p

inductive State
  /-- Between items or members, after the attributes of the next one. -/
  | item (scope : Scope) (attrs : List AttrTree)
  | attrHash (scope : Scope) (attrs : List AttrTree) (hash : Lexeme .hash)
  | attrBang (scope : Scope) (attrs : List AttrTree) (hash : Lexeme .hash) (bang : Lexeme .bang)
  | paramHash (place : ParamPlace) (hash : Lexeme .hash)
  | attrOpen (place : AttrPlace)
  | route (place : RoutePlace) (r : Route)
  | routeMark (place : RoutePlace) (r : Route) (mark : Lexeme .colons)
  | metaEquals (place : AttrPlace) (r : Route) (eq : Lexeme .equals)
  | metaContent (place : AttrPlace) (content : Meta)
  | metaItem (place : MetaPlace)
  | metaItemEquals (place : MetaPlace) (r : Route) (eq : Lexeme .equals)
  | metaItemDone (place : MetaPlace) (item : MetaItem)
  | visibility (scope : Scope) (attrs : List AttrTree) (v : Visibility)
  | restrictionOpen (scope : Scope) (attrs : List AttrTree) (word : Lexeme .pubWord)
      (opens : Lexeme .lparen)
  | restrictionName (scope : Scope) (attrs : List AttrTree) (word : Lexeme .pubWord)
      (opens : Lexeme .lparen) (name : Lexeme .ident)
  | asyncWord (decl : DeclPlace) (word : Lexeme .asyncWord)
  | fnWord (decl : DeclPlace) (asynchronous : Option (Lexeme .asyncWord)) (word : Lexeme .fnWord)
  | fnName (place : FnPlace)
  | fnGenerics (place : FnPlace) (generics : GenericsTree)
  | params (place : ResultPlace)
  | bodyOpen (place : ResultPlace) (result : Option (Lexeme .arrow × TypeTree))
      (opens : Lexeme .lbrace)
  | constWord (decl : DeclPlace) (word : Lexeme .constWord)
  | constName (place : ConstPlace)
  | constEquals (place : ConstPlace) (colon : Lexeme .colon) (type : TypeTree)
      (eq : Lexeme .equals)
  | constValue (place : ConstPlace) (colon : Lexeme .colon) (type : TypeTree)
      (eq : Lexeme .equals) (value : Lexeme .initializer)
  | generic (place : GenericPlace)
  | genericLifetime (place : GenericPlace) (name : Lexeme .lifetime)
  | outlives (place : GenericPlace) (name : Lexeme .lifetime) (colon : Lexeme .colon)
      (front : Front .plus (Lexeme .lifetime))
  | outlived (place : GenericPlace) (name : Lexeme .lifetime) (colon : Lexeme .colon)
      (bounds : Chain .plus (Lexeme .lifetime))
  | genericType (place : GenericPlace) (name : Lexeme .ident)
  | genericConst (place : GenericPlace) (word : Lexeme .constWord)
  | genericConstName (place : GenericPlace) (word : Lexeme .constWord) (name : Lexeme .ident)
  | param (place : ParamPlace)
  | paramMut (place : ParamPlace) (mutable : Lexeme .mutWord)
  | selfAmp (place : ParamPlace) (amp : Lexeme .amp) (life : Option (Lexeme .lifetime))
      (mutable : Option (Lexeme .mutWord))
  | receiver (place : ParamPlace) (s : SelfTree)
  | component (opens : Lexeme .lparen) (front : Option (PatternList × Lexeme .comma))
      (outer : PatternPlace)
  | componentMut (place : PatternPlace) (mutable : Lexeme .mutWord)
  | pattern (place : PatternPlace) (p : PatternTree)
  | type (place : TypePlace)
  | typeDone (place : TypePlace) (t : TypeTree)
  | arraySemicolon (opens : Lexeme .lbracket) (item : TypeTree) (semi : Lexeme .semicolon)
      (outer : TypePlace)
  | arrayLength (opens : Lexeme .lbracket) (item : TypeTree) (semi : Lexeme .semicolon)
      (length : ArrayLength) (outer : TypePlace)
  | path (front : Option (PathTree × Lexeme .colons)) (s : SegmentTree) (place : PathPlace)
  | pathMark (front : PathTree) (mark : Lexeme .colons) (place : PathPlace)
  | argLifetime (place : ArgPlace) (l : Lexeme .lifetime) (outer : PathPlace)
  | bound (place : BoundPlace)
  | boundLifetime (place : BoundPlace) (l : Lexeme .lifetime)

namespace State

def start : State :=
  .item (.file []) []

def finish? : State → Option (List ItemTree)
  | .item (.file items) [] => some items
  | _ => none

end State

def typeStart : List Terminal :=
  [.amp, .lparen, .ident, .lbracket, .wildcard, .dynWord, .implWord]

def declStart : List Terminal :=
  [.asyncWord, .constWord, .fnWord, .pubWord]

def typeEnd : List Terminal :=
  [.rparen, .comma, .semicolon, .equals, .greater, .rbracket, .lbrace]

def literalStart : List Terminal :=
  [.number, .string, .falseWord, .trueWord]

/-- After a member, the closing brace of a block is expected in a file as well. -/
def Scope.expects : Scope → List Terminal
  | file items =>
      match items.getLast? with
      | some ⟨_, .member _⟩ => declStart ++ [.hash, .docComment, .implWord, .rbrace]
      | _ => declStart ++ [.hash, .docComment, .implWord]
  | block _ _ _ [] => declStart ++ [.hash, .docComment, .rbrace]
  | block _ _ _ (_ :: _) => declStart ++ [.hash, .docComment, .implWord, .rbrace]

def TypePlace.expects : TypePlace → List Terminal
  | subject _ none => .less :: typeStart
  | target _ none none _ => .lifetime :: .mutWord :: typeStart
  | target _ (some _) none _ => .mutWord :: typeStart
  | component _ _ _ => .rparen :: typeStart
  | arg ⟨_, _, _, none⟩ _ => .lifetime :: typeStart
  | arg ⟨_, _, _, some _⟩ _ => .greater :: .lifetime :: typeStart
  | _ => typeStart

namespace State

def expects : State → List Terminal
  | item scope [] => scope.expects
  | item _ (_ :: _) => declStart ++ [.hash, .docComment, .implWord]
  | attrHash .. => [.bang, .lbracket]
  | attrBang .. => [.lbracket]
  | paramHash .. => [.lbracket]
  | attrOpen .. => [.ident]
  | route .. => [.lparen, .rparen, .comma, .colons, .equals, .rbracket]
  | routeMark .. => [.ident]
  | metaEquals .. => literalStart
  | metaContent _ (.list ..) => [.rbracket]
  | metaContent .. => [.rparen, .comma, .rbracket]
  | metaItem .. => .rparen :: .ident :: literalStart
  | metaItemEquals .. => literalStart
  | metaItemDone .. => [.rparen, .comma, .rbracket]
  | visibility _ _ ⟨_, none⟩ => [.lparen, .asyncWord, .constWord, .fnWord]
  | visibility _ _ ⟨_, some _⟩ => [.asyncWord, .constWord, .fnWord]
  | restrictionOpen .. => [.ident]
  | restrictionName .. => [.rparen]
  | asyncWord .. => [.fnWord]
  | fnWord .. => [.ident]
  | fnName .. => [.lparen, .less]
  | fnGenerics .. => typeStart
  | params .. => [.arrow, .semicolon, .lbrace]
  | bodyOpen .. => [.rbrace]
  | constWord .. => [.ident]
  | constName .. => [.colon]
  | constEquals .. => [.initializer]
  | constValue .. => [.semicolon]
  | generic ⟨_, _, none⟩ => [.ident, .lifetime, .constWord]
  | generic ⟨_, _, some _⟩ => [.greater, .ident, .lifetime, .constWord]
  | genericLifetime .. => [.comma, .colon, .greater]
  | outlives .. => [.lifetime]
  | outlived .. => [.plus, .comma, .greater]
  | genericType .. => [.comma, .colon, .greater]
  | genericConst .. => [.ident]
  | genericConstName .. => [.colon]
  | param ⟨_, _, _, _, []⟩ =>
      [.hash, .amp, .lparen, .rparen, .ident, .wildcard, .mutWord, .selfWord]
  | param ⟨_, _, _, _, _ :: _⟩ => [.hash, .amp, .lparen, .ident, .wildcard, .mutWord, .selfWord]
  | paramMut .. => [.ident, .selfWord]
  | selfAmp _ _ none none => [.lifetime, .mutWord, .selfWord]
  | selfAmp _ _ (some _) none => [.mutWord, .selfWord]
  | selfAmp _ _ _ (some _) => [.selfWord]
  | receiver .. => [.rparen, .comma]
  | component .. => [.lparen, .rparen, .ident, .wildcard, .mutWord]
  | componentMut .. => [.ident]
  | pattern .. => [.rparen, .comma, .colon]
  | type place => place.expects
  | typeDone .. => typeEnd
  | arraySemicolon .. => [.ident, .number]
  | arrayLength .. => [.rbracket]
  | path _ (.plain _) _ => .plus :: .colons :: .less :: typeEnd
  | path _ (.generic ..) _ => .plus :: .colons :: typeEnd
  | pathMark .. => [.ident]
  | argLifetime .. => [.comma, .greater]
  | bound .. => [.ident, .lifetime]
  | boundLifetime .. => .plus :: typeEnd

end State

end NativeBinding.Grammar
