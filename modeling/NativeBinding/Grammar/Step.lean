import NativeBinding.Grammar.State

/-!
One token of reading. `State.feed` puts a token after a state, closing first whatever the token
shows to be complete, and is undefined where no declaration file goes on with that token. For each
place, `close` puts a token after a complete part there, and `feed` puts one where a part is due.
-/

namespace NativeBinding.Grammar

def ResultPlace.add (place : ResultPlace) (result : Option (Lexeme .arrow × TypeTree))
    (ending : FnEnd) : Scope :=
  let fn := place.fn
  fn.decl.scope.add fn.decl.attrs (.fn ⟨fn.decl.visibility, fn.asynchronous, fn.word, fn.name,
    place.generics, place.params, result, ending⟩)

def ResultPlace.close (place : ResultPlace) (result : Option (Lexeme .arrow × TypeTree)) :
    Token → Option State
  | ⟨.semicolon, l⟩ => some (.item (place.add result (.semicolon l)) [])
  | ⟨.lbrace, l⟩ => some (.bodyOpen place result l)
  | _ => none

def ConstPlace.add (place : ConstPlace) (colon : Lexeme .colon) (type : TypeTree)
    (eq : Lexeme .equals) (value : Lexeme .initializer) (semi : Lexeme .semicolon) : Scope :=
  place.decl.scope.add place.decl.attrs
    (.const ⟨place.decl.visibility, place.word, place.name, colon, type, eq, value, semi⟩)

def ParamPlace.finish (place : ParamPlace) (items : Option (Series ParamTree))
    (closes : Lexeme .rparen) : State :=
  .params ⟨place.fn, place.generics, ⟨place.opens, items, closes⟩⟩

def ParamPlace.close (place : ParamPlace) (body : ParamBody) : Token → Option State
  | ⟨.comma, l⟩ => some (.param
      { place with front := some (place.front.add ⟨place.attrs, body⟩, l), attrs := [] })
  | ⟨.rparen, l⟩ => some (place.finish (some ⟨place.front.add ⟨place.attrs, body⟩, none⟩) l)
  | _ => none

def GenericPlace.finish (place : GenericPlace) (params : Series GenericTree)
    (closes : Lexeme .greater) : State :=
  let generics : GenericsTree := ⟨place.opens, params, closes⟩
  match place.owner with
  | .fn fn => .fnGenerics fn generics
  | .block block => .type (.subject block (some generics))

def GenericPlace.close (place : GenericPlace) (param : GenericTree) : Token → Option State
  | ⟨.comma, l⟩ => some (.generic { place with front := some (place.front.add param, l) })
  | ⟨.greater, l⟩ => some (place.finish ⟨place.front.add param, none⟩ l)
  | _ => none

def ArgPlace.finish (place : ArgPlace) (args : ArgList) (trailing : Option (Lexeme .comma))
    (closes : Lexeme .greater) (outer : PathPlace) : State :=
  .path place.path (.generic place.name place.opens args trailing closes) outer

def ArgPlace.close (place : ArgPlace) (arg : ArgTree) (outer : PathPlace) : Token → Option State
  | ⟨.comma, l⟩ =>
      some (.type (.arg { place with front := some (addArg place.front arg, l) } outer))
  | ⟨.greater, l⟩ => some (place.finish (addArg place.front arg) none l outer)
  | _ => none

mutual

def TypePlace.close : TypePlace → TypeTree → Token → Option State
  | .const place colon, t, token =>
      match token with
      | ⟨.equals, l⟩ => some (.constEquals place colon t l)
      | _ => none
  | .param place pattern colon, t, token => place.close (.typed pattern colon t) token
  | .result place arrow, t, token => place.close (some (arrow, t)) token
  | .subject place generics, t, token =>
      match token with
      | ⟨.lbrace, l⟩ =>
          some (.item (.block place.items place.attrs ⟨place.word, generics, t, l⟩ []) [])
      | _ => none
  | .generic place word name colon, t, token => place.close (.const word name colon t) token
  | .target amp life mutable outer, t, token => outer.close (.ref amp life mutable t) token
  | .component opens front outer, t, token =>
      match token with
      | ⟨.comma, l⟩ => some (.type (.component opens (some (addType front t, l)) outer))
      | ⟨.rparen, l⟩ => some (.typeDone outer (.tuple opens (addType front t) none l))
      | _ => none
  | .element opens outer, t, token =>
      match token with
      | ⟨.semicolon, l⟩ => some (.arraySemicolon opens t l outer)
      | ⟨.rbracket, l⟩ => some (.typeDone outer (.slice opens t l))
      | _ => none
  | .arg place outer, t, token => place.close (.type t) outer token

def BoundPlace.close : BoundPlace → BoundTree → Token → Option State
  | .object word front outer, b, token =>
      match token with
      | ⟨.plus, l⟩ => some (.bound (.object word (some (addBound front b, l)) outer))
      | _ => outer.close (.object word (addBound front b)) token
  | .generic place name colon front, b, token =>
      match token with
      | ⟨.plus, l⟩ => some (.bound (.generic place name colon (some (addBound front b, l))))
      | _ => place.close (.type name (some (colon, addBound front b))) token

end

def PathPlace.close : PathPlace → PathTree → Token → Option State
  | .type outer, p, token => outer.close (.path p) token
  | .bound outer, p, token => outer.close (.path p) token

def TypePlace.feed (place : TypePlace) : Token → Option State
  | ⟨.amp, l⟩ => some (.type (.target l none none place))
  | ⟨.lparen, l⟩ => some (.type (.component l none place))
  | ⟨.lbracket, l⟩ => some (.type (.element l place))
  | ⟨.ident, l⟩ => some (.path none (.plain l) (.type place))
  | ⟨.wildcard, l⟩ => some (.typeDone place (.inferred l))
  | ⟨.dynWord, l⟩ => some (.bound (.object (.dyn l) none place))
  | ⟨.implWord, l⟩ => some (.bound (.object (.impl l) none place))
  | ⟨.lifetime, l⟩ =>
      match place with
      | .target amp none none outer => some (.type (.target amp (some l) none outer))
      | .arg args outer => some (.argLifetime args l outer)
      | _ => none
  | ⟨.mutWord, l⟩ =>
      match place with
      | .target amp life none outer => some (.type (.target amp life (some l) outer))
      | _ => none
  | ⟨.less, l⟩ =>
      match place with
      | .subject block none => some (.generic ⟨.block block, l, none⟩)
      | _ => none
  | ⟨.rparen, l⟩ =>
      match place with
      | .component opens none outer => some (.typeDone outer (.unit opens l))
      | .component opens (some (items, sep)) outer =>
          some (.typeDone outer (.tuple opens items (some sep) l))
      | _ => none
  | ⟨.greater, l⟩ =>
      match place with
      | .arg args outer => args.front.map fun f => args.finish f.1 (some f.2) l outer
      | _ => none
  | _ => none

def PatternPlace.close : PatternPlace → PatternTree → Token → Option State
  | .param place, p, token =>
      match token with
      | ⟨.colon, l⟩ => some (.type (.param place p l))
      | _ => none
  | .component opens front outer, p, token =>
      match token with
      | ⟨.comma, l⟩ => some (.component opens (some (addPattern front p, l)) outer)
      | ⟨.rparen, l⟩ => some (.pattern outer (.tuple opens (addPattern front p) none l))
      | _ => none

def feedComponent (opens : Lexeme .lparen) (front : Option (PatternList × Lexeme .comma))
    (outer : PatternPlace) : Token → Option State
  | ⟨.mutWord, l⟩ => some (.componentMut (.component opens front outer) l)
  | ⟨.ident, l⟩ => some (.pattern (.component opens front outer) (.name none l))
  | ⟨.wildcard, l⟩ => some (.pattern (.component opens front outer) (.wildcard l))
  | ⟨.lparen, l⟩ => some (.component l none (.component opens front outer))
  | ⟨.rparen, l⟩ =>
      match front with
      | none => some (.pattern outer (.unit opens l))
      | some (items, sep) => some (.pattern outer (.tuple opens items (some sep) l))
  | _ => none

def ParamPlace.feed (place : ParamPlace) : Token → Option State
  | ⟨.hash, l⟩ => some (.paramHash place l)
  | ⟨.amp, l⟩ => some (.selfAmp place l none none)
  | ⟨.mutWord, l⟩ => some (.paramMut place l)
  | ⟨.selfWord, l⟩ => some (.receiver place (.value none l))
  | ⟨.ident, l⟩ => some (.pattern (.param place) (.name none l))
  | ⟨.wildcard, l⟩ => some (.pattern (.param place) (.wildcard l))
  | ⟨.lparen, l⟩ => some (.component l none (.param place))
  | ⟨.rparen, l⟩ =>
      match place.attrs with
      | [] => some (place.finish (place.front.map fun f => ⟨f.1, some f.2⟩) l)
      | _ :: _ => none
  | _ => none

def feedSelf (place : ParamPlace) (amp : Lexeme .amp) (life : Option (Lexeme .lifetime))
    (mutable : Option (Lexeme .mutWord)) : Token → Option State
  | ⟨.lifetime, l⟩ =>
      match life, mutable with
      | none, none => some (.selfAmp place amp (some l) none)
      | _, _ => none
  | ⟨.mutWord, l⟩ =>
      match mutable with
      | none => some (.selfAmp place amp life (some l))
      | some _ => none
  | ⟨.selfWord, l⟩ => some (.receiver place (.ref amp life mutable l))
  | _ => none

def AttrPlace.finish (content : Meta) (closes : Lexeme .rbracket) : AttrPlace → State
  | .item scope attrs hash bang opens =>
      .item scope (attrs ++ [.written hash bang opens content closes])
  | .param place hash opens =>
      .param { place with attrs := place.attrs ++ [⟨hash, opens, content, closes⟩] }

def MetaPlace.close (place : MetaPlace) (item : MetaItem) : Token → Option State
  | ⟨.comma, l⟩ => some (.metaItem { place with front := some (place.front.add item, l) })
  | ⟨.rparen, l⟩ => some (.metaContent place.attr
      (.list place.route ⟨place.opens, some ⟨place.front.add item, none⟩, l⟩))
  | _ => none

def RoutePlace.close (r : Route) : RoutePlace → Token → Option State
  | .content place, ⟨.lparen, l⟩ => some (.metaItem ⟨place, r, l, none⟩)
  | .content place, ⟨.equals, l⟩ => some (.metaEquals place r l)
  | .content place, ⟨.rbracket, l⟩ => some (place.finish (.word r) l)
  | .item place, ⟨.equals, l⟩ => some (.metaItemEquals place r l)
  | .item place, token => place.close (.route r) token
  | _, _ => none

def Token.literal? : Token → Option Literal
  | ⟨.string, l⟩ => some (.string l)
  | ⟨.number, l⟩ => some (.number l)
  | ⟨.trueWord, l⟩ => some (.yes l)
  | ⟨.falseWord, l⟩ => some (.no l)
  | _ => none

def MetaPlace.feed (place : MetaPlace) : Token → Option State
  | ⟨.ident, l⟩ => some (.route (.item place) (.one l))
  | ⟨.rparen, l⟩ => some (.metaContent place.attr
      (.list place.route ⟨place.opens, place.front.map fun f => ⟨f.1, some f.2⟩, l⟩))
  | token => token.literal?.map fun value => .metaItemDone place (.literal value)

def DeclPlace.feed (decl : DeclPlace) : Token → Option State
  | ⟨.asyncWord, l⟩ => some (.asyncWord decl l)
  | ⟨.fnWord, l⟩ => some (.fnWord decl none l)
  | ⟨.constWord, l⟩ => some (.constWord decl l)
  | _ => none

def Scope.feed (scope : Scope) (attrs : List AttrTree) : Token → Option State
  | ⟨.hash, l⟩ => some (.attrHash scope attrs l)
  | ⟨.docComment, l⟩ => some (.item scope (attrs ++ [.doc l]))
  | ⟨.pubWord, l⟩ => some (.visibility scope attrs ⟨l, none⟩)
  | ⟨.implWord, l⟩ =>
      match scope with
      | .file items => some (.type (.subject ⟨items, attrs, l⟩ none))
      | .block .. => none
  | ⟨.rbrace, l⟩ =>
      match scope, attrs with
      | .block items outer head members, [] =>
          some (.item (.file (items ++ [⟨outer, .block ⟨head, members, l⟩⟩])) [])
      | _, _ => none
  | token => DeclPlace.feed ⟨scope, attrs, none⟩ token

namespace State

def feed : State → Token → Option State
  | item scope attrs, t => scope.feed attrs t
  | attrHash scope attrs hash, ⟨.bang, l⟩ => some (attrBang scope attrs hash l)
  | attrHash scope attrs hash, ⟨.lbracket, l⟩ => some (attrOpen (.item scope attrs hash none l))
  | attrBang scope attrs hash bang, ⟨.lbracket, l⟩ =>
      some (attrOpen (.item scope attrs hash (some bang) l))
  | paramHash place hash, ⟨.lbracket, l⟩ => some (attrOpen (.param place hash l))
  | attrOpen place, ⟨.ident, l⟩ => some (route (.content place) (.one l))
  | route place r, ⟨.colons, l⟩ => some (routeMark place r l)
  | route place r, t => place.close r t
  | routeMark place r mark, ⟨.ident, l⟩ => some (route place (.more r mark l))
  | metaEquals place r eq, t => t.literal?.map fun value => metaContent place (.value r eq value)
  | metaContent place content, ⟨.rbracket, l⟩ => some (place.finish content l)
  | metaItem place, t => place.feed t
  | metaItemEquals place r eq, t =>
      t.literal?.map fun value => metaItemDone place (.assign r eq value)
  | metaItemDone place entry, t => place.close entry t
  | visibility scope attrs ⟨word, none⟩, ⟨.lparen, l⟩ => some (restrictionOpen scope attrs word l)
  | visibility scope attrs v, t => DeclPlace.feed ⟨scope, attrs, some v⟩ t
  | restrictionOpen scope attrs word opens, ⟨.ident, l⟩ =>
      some (restrictionName scope attrs word opens l)
  | restrictionName scope attrs word opens name, ⟨.rparen, l⟩ =>
      some (visibility scope attrs ⟨word, some ⟨opens, name, l⟩⟩)
  | asyncWord decl word, ⟨.fnWord, l⟩ => some (fnWord decl (some word) l)
  | fnWord decl asynchronous word, ⟨.ident, l⟩ => some (fnName ⟨decl, asynchronous, word, l⟩)
  | fnName place, ⟨.less, l⟩ => some (generic ⟨.fn place, l, none⟩)
  | fnName place, ⟨.lparen, l⟩ => some (param ⟨place, none, l, none, []⟩)
  | fnGenerics place generics, ⟨.lparen, l⟩ => some (param ⟨place, some generics, l, none, []⟩)
  | params place, ⟨.arrow, l⟩ => some (type (.result place l))
  | params place, t => place.close none t
  | bodyOpen place result opens, ⟨.rbrace, l⟩ => some (item (place.add result (.block opens l)) [])
  | constWord decl word, ⟨.ident, l⟩ => some (constName ⟨decl, word, l⟩)
  | constName place, ⟨.colon, l⟩ => some (type (.const place l))
  | constEquals place colon t eq, ⟨.initializer, l⟩ => some (constValue place colon t eq l)
  | constValue place colon t eq value, ⟨.semicolon, l⟩ =>
      some (item (place.add colon t eq value l) [])
  | generic place, ⟨.lifetime, l⟩ => some (genericLifetime place l)
  | generic place, ⟨.ident, l⟩ => some (genericType place l)
  | generic place, ⟨.constWord, l⟩ => some (genericConst place l)
  | generic place, ⟨.greater, l⟩ => place.front.map fun f => place.finish ⟨f.1, some f.2⟩ l
  | genericLifetime place name, ⟨.colon, l⟩ => some (outlives place name l none)
  | genericLifetime place name, t => place.close (.lifetime name none) t
  | outlives place name colon front, ⟨.lifetime, l⟩ =>
      some (outlived place name colon (front.add l))
  | outlived place name colon bounds, ⟨.plus, l⟩ =>
      some (outlives place name colon (some (bounds, l)))
  | outlived place name colon bounds, t => place.close (.lifetime name (some (colon, bounds))) t
  | genericType place name, ⟨.colon, l⟩ => some (bound (.generic place name l none))
  | genericType place name, t => place.close (.type name none) t
  | genericConst place word, ⟨.ident, l⟩ => some (genericConstName place word l)
  | genericConstName place word name, ⟨.colon, l⟩ => some (type (.generic place word name l))
  | param place, t => place.feed t
  | paramMut place mutable, ⟨.ident, l⟩ => some (pattern (.param place) (.name (some mutable) l))
  | paramMut place mutable, ⟨.selfWord, l⟩ => some (receiver place (.value (some mutable) l))
  | selfAmp place amp life mutable, t => feedSelf place amp life mutable t
  | receiver place s, t => place.close (.receiver s) t
  | component opens front outer, t => feedComponent opens front outer t
  | componentMut place mutable, ⟨.ident, l⟩ => some (pattern place (.name (some mutable) l))
  | pattern place p, t => place.close p t
  | type place, t => place.feed t
  | typeDone place t, token => place.close t token
  | arraySemicolon opens element semi outer, ⟨.ident, l⟩ =>
      some (arrayLength opens element semi (.ident l) outer)
  | arraySemicolon opens element semi outer, ⟨.number, l⟩ =>
      some (arrayLength opens element semi (.number l) outer)
  | arrayLength opens element semi length outer, ⟨.rbracket, l⟩ =>
      some (typeDone outer (.array opens element semi length l))
  | path front s place, ⟨.colons, l⟩ => some (pathMark (addSegment front s) l place)
  | path front (.plain name) place, ⟨.less, l⟩ => some (type (.arg ⟨front, name, l, none⟩ place))
  | path front s place, t => place.close (addSegment front s) t
  | pathMark front mark place, ⟨.ident, l⟩ => some (path (some (front, mark)) (.plain l) place)
  | argLifetime place l outer, t => place.close (.lifetime l) outer t
  | bound place, ⟨.ident, l⟩ => some (path none (.plain l) (.bound place))
  | bound place, ⟨.lifetime, l⟩ => some (boundLifetime place l)
  | boundLifetime place l, t => place.close (.lifetime l) t
  | _, _ => none

end State

end NativeBinding.Grammar
