import NativeBinding.Grammar.Step
import NativeBinding.Proofs.Grammar.Relabel

/-!
Relabelled states. A state expects the same terminals after its lexemes are relabelled, and feeding
a relabelled token to it gives the relabelled state. So how a file is read on depends on the kinds
of its tokens alone.
-/

namespace NativeBinding.Grammar

variable (f : Relabelling)

def relabelMarked {mark : Terminal} {α : Type} (g : α → α) (m : α × Lexeme mark) :
    α × Lexeme mark :=
  (g m.1, f _ m.2)

def Front.relabel {mark : Terminal} {α : Type} (g : α → α) (front : Front mark α) :
    Front mark α :=
  Option.map (relabelMarked f (Chain.relabel f g)) front

def Scope.relabel : Scope → Scope
  | file items => .file (items.map (ItemTree.relabel f))
  | block items attrs head members =>
      .block (items.map (ItemTree.relabel f)) (attrs.map (AttrTree.relabel f)) (head.relabel f)
        (members.map (MemberTree.relabel f))

def DeclPlace.relabel (p : DeclPlace) : DeclPlace :=
  ⟨p.scope.relabel f, p.attrs.map (AttrTree.relabel f), p.visibility.map (Visibility.relabel f)⟩

def BlockPlace.relabel (p : BlockPlace) : BlockPlace :=
  ⟨p.items.map (ItemTree.relabel f), p.attrs.map (AttrTree.relabel f), f _ p.word⟩

def ConstPlace.relabel (p : ConstPlace) : ConstPlace :=
  ⟨p.decl.relabel f, f _ p.word, f _ p.name⟩

def FnPlace.relabel (p : FnPlace) : FnPlace :=
  ⟨p.decl.relabel f, p.asynchronous.map (f _), f _ p.word, f _ p.name⟩

def ParamPlace.relabel (p : ParamPlace) : ParamPlace :=
  ⟨p.fn.relabel f, p.generics.map (GenericsTree.relabel f), f _ p.opens,
    p.front.relabel f (ParamTree.relabel f), p.attrs.map (ParamAttrTree.relabel f)⟩

def ResultPlace.relabel (p : ResultPlace) : ResultPlace :=
  ⟨p.fn.relabel f, p.generics.map (GenericsTree.relabel f),
    p.params.relabel f (ParamTree.relabel f)⟩

def GenericsOwner.relabel : GenericsOwner → GenericsOwner
  | fn place => .fn (place.relabel f)
  | block place => .block (place.relabel f)

def GenericPlace.relabel (p : GenericPlace) : GenericPlace :=
  ⟨p.owner.relabel f, f _ p.opens, p.front.relabel f (GenericTree.relabel f)⟩

def AttrPlace.relabel : AttrPlace → AttrPlace
  | item scope attrs hash bang opens =>
      .item (scope.relabel f) (attrs.map (AttrTree.relabel f)) (f _ hash) (bang.map (f _))
        (f _ opens)
  | param place hash opens => .param (place.relabel f) (f _ hash) (f _ opens)

def MetaPlace.relabel (p : MetaPlace) : MetaPlace :=
  ⟨p.attr.relabel f, p.route.relabel f, f _ p.opens, p.front.relabel f (MetaItem.relabel f)⟩

def RoutePlace.relabel : RoutePlace → RoutePlace
  | content place => .content (place.relabel f)
  | item place => .item (place.relabel f)

def ArgPlace.relabel (p : ArgPlace) : ArgPlace :=
  ⟨p.path.map (relabelMarked f (PathTree.relabel f)), f _ p.name, f _ p.opens,
    p.front.map (relabelMarked f (ArgList.relabel f))⟩

mutual

def TypePlace.relabel : TypePlace → TypePlace
  | .const place colon => .const (place.relabel f) (f _ colon)
  | .param place pattern colon => .param (place.relabel f) (pattern.relabel f) (f _ colon)
  | .result place arrow => .result (place.relabel f) (f _ arrow)
  | .subject place generics =>
      .subject (place.relabel f) (generics.map (GenericsTree.relabel f))
  | .generic place word name colon =>
      .generic (place.relabel f) (f _ word) (f _ name) (f _ colon)
  | .target amp life mutable outer =>
      .target (f _ amp) (life.map (f _)) (mutable.map (f _)) outer.relabel
  | .component opens front outer =>
      .component (f _ opens) (front.map (relabelMarked f (TypeList.relabel f))) outer.relabel
  | .element opens outer => .element (f _ opens) outer.relabel
  | .arg place outer => .arg (place.relabel f) outer.relabel

def PathPlace.relabel : PathPlace → PathPlace
  | .type outer => .type outer.relabel
  | .bound outer => .bound outer.relabel

def BoundPlace.relabel : BoundPlace → BoundPlace
  | .object word front outer =>
      .object (word.relabel f) (front.map (relabelMarked f (BoundList.relabel f))) outer.relabel
  | .generic place name colon front =>
      .generic (place.relabel f) (f _ name) (f _ colon)
        (front.map (relabelMarked f (BoundList.relabel f)))

end

def PatternPlace.relabel : PatternPlace → PatternPlace
  | param place => .param (place.relabel f)
  | component opens front outer =>
      .component (f _ opens) (front.map (relabelMarked f (PatternList.relabel f))) outer.relabel

def State.relabel : State → State
  | item scope attrs => .item (scope.relabel f) (attrs.map (AttrTree.relabel f))
  | attrHash scope attrs hash =>
      .attrHash (scope.relabel f) (attrs.map (AttrTree.relabel f)) (f _ hash)
  | attrBang scope attrs hash bang =>
      .attrBang (scope.relabel f) (attrs.map (AttrTree.relabel f)) (f _ hash) (f _ bang)
  | paramHash place hash => .paramHash (place.relabel f) (f _ hash)
  | attrOpen place => .attrOpen (place.relabel f)
  | route place r => .route (place.relabel f) (r.relabel f)
  | routeMark place r mark => .routeMark (place.relabel f) (r.relabel f) (f _ mark)
  | metaEquals place r eq => .metaEquals (place.relabel f) (r.relabel f) (f _ eq)
  | metaContent place content => .metaContent (place.relabel f) (content.relabel f)
  | metaItem place => .metaItem (place.relabel f)
  | metaItemEquals place r eq => .metaItemEquals (place.relabel f) (r.relabel f) (f _ eq)
  | metaItemDone place entry => .metaItemDone (place.relabel f) (entry.relabel f)
  | visibility scope attrs v =>
      .visibility (scope.relabel f) (attrs.map (AttrTree.relabel f)) (v.relabel f)
  | restrictionOpen scope attrs word opens =>
      .restrictionOpen (scope.relabel f) (attrs.map (AttrTree.relabel f)) (f _ word) (f _ opens)
  | restrictionName scope attrs word opens name =>
      .restrictionName (scope.relabel f) (attrs.map (AttrTree.relabel f)) (f _ word) (f _ opens)
        (f _ name)
  | asyncWord decl word => .asyncWord (decl.relabel f) (f _ word)
  | fnWord decl asynchronous word =>
      .fnWord (decl.relabel f) (asynchronous.map (f _)) (f _ word)
  | fnName place => .fnName (place.relabel f)
  | fnGenerics place generics => .fnGenerics (place.relabel f) (generics.relabel f)
  | params place => .params (place.relabel f)
  | bodyOpen place result opens =>
      .bodyOpen (place.relabel f) (result.map (relabelResult f)) (f _ opens)
  | constWord decl word => .constWord (decl.relabel f) (f _ word)
  | constName place => .constName (place.relabel f)
  | constEquals place colon t eq =>
      .constEquals (place.relabel f) (f _ colon) (t.relabel f) (f _ eq)
  | constValue place colon t eq value =>
      .constValue (place.relabel f) (f _ colon) (t.relabel f) (f _ eq) (f _ value)
  | generic place => .generic (place.relabel f)
  | genericLifetime place name => .genericLifetime (place.relabel f) (f _ name)
  | outlives place name colon front =>
      .outlives (place.relabel f) (f _ name) (f _ colon) (front.relabel f (f _))
  | outlived place name colon bounds =>
      .outlived (place.relabel f) (f _ name) (f _ colon) (bounds.relabel f (f _))
  | genericType place name => .genericType (place.relabel f) (f _ name)
  | genericConst place word => .genericConst (place.relabel f) (f _ word)
  | genericConstName place word name =>
      .genericConstName (place.relabel f) (f _ word) (f _ name)
  | param place => .param (place.relabel f)
  | paramMut place mutable => .paramMut (place.relabel f) (f _ mutable)
  | selfAmp place amp life mutable =>
      .selfAmp (place.relabel f) (f _ amp) (life.map (f _)) (mutable.map (f _))
  | receiver place s => .receiver (place.relabel f) (s.relabel f)
  | component opens front outer =>
      .component (f _ opens) (front.map (relabelMarked f (PatternList.relabel f)))
        (outer.relabel f)
  | componentMut place mutable => .componentMut (place.relabel f) (f _ mutable)
  | pattern place p => .pattern (place.relabel f) (p.relabel f)
  | type place => .type (place.relabel f)
  | typeDone place t => .typeDone (place.relabel f) (t.relabel f)
  | arraySemicolon opens element semi outer =>
      .arraySemicolon (f _ opens) (element.relabel f) (f _ semi) (outer.relabel f)
  | arrayLength opens element semi length outer =>
      .arrayLength (f _ opens) (element.relabel f) (f _ semi) (length.relabel f)
        (outer.relabel f)
  | path front s place =>
      .path (front.map (relabelMarked f (PathTree.relabel f))) (s.relabel f) (place.relabel f)
  | pathMark front mark place => .pathMark (front.relabel f) (f _ mark) (place.relabel f)
  | argLifetime place l outer => .argLifetime (place.relabel f) (f _ l) (outer.relabel f)
  | bound place => .bound (place.relabel f)
  | boundLifetime place l => .boundLifetime (place.relabel f) (f _ l)

variable {f : Relabelling}

theorem Scope.expects_relabel (scope : Scope) : (scope.relabel f).expects = scope.expects := by
  cases scope with
  | file items =>
    rw [Scope.relabel, Scope.expects, Scope.expects, List.getLast?_map]
    cases items.getLast? with
    | none => rfl
    | some item =>
      obtain ⟨attrs, body⟩ := item
      cases body <;> rfl
  | block items attrs head members => cases members <;> rfl

theorem TypePlace.expects_relabel (place : TypePlace) :
    (place.relabel f).expects = place.expects := by
  cases place with
  | subject place generics => cases generics <;> rfl
  | target amp life mutable outer => cases life <;> cases mutable <;> rfl
  | arg place outer =>
    obtain ⟨path, name, opens, front⟩ := place
    cases front <;> rfl
  | _ => rfl

theorem State.expects_relabel (s : State) : (s.relabel f).expects = s.expects := by
  cases s with
  | item scope attrs =>
    cases attrs with
    | nil => exact scope.expects_relabel
    | cons a attrs => rfl
  | metaContent place content => cases content <;> rfl
  | visibility scope attrs v =>
    obtain ⟨word, restriction⟩ := v
    cases restriction <;> rfl
  | generic place =>
    obtain ⟨owner, opens, front⟩ := place
    cases front <;> rfl
  | param place =>
    obtain ⟨fn, generics, opens, front, attrs⟩ := place
    cases attrs <;> rfl
  | selfAmp place amp life mutable => cases life <;> cases mutable <;> rfl
  | type place => exact place.expects_relabel
  | path front s place => cases s <;> rfl
  | _ => rfl

theorem State.finish?_relabel (s : State) :
    (s.relabel f).finish? = s.finish?.map (List.map (ItemTree.relabel f)) := by
  cases s with
  | item scope attrs => cases scope <;> cases attrs <;> rfl
  | _ => rfl

theorem Front.add_relabel {mark : Terminal} {α : Type} {g : α → α} (front : Front mark α) (a : α) :
    (front.relabel f g).add (g a) = (front.add a).relabel f g := by
  cases front <;> rfl

theorem addType_relabel (front : Option (TypeList × Lexeme .comma)) (t : TypeTree) :
    addType (front.map (relabelMarked f (TypeList.relabel f))) (t.relabel f) =
      (addType front t).relabel f := by
  cases front <;> rfl

theorem addSegment_relabel (front : Option (PathTree × Lexeme .colons)) (s : SegmentTree) :
    addSegment (front.map (relabelMarked f (PathTree.relabel f))) (s.relabel f) =
      (addSegment front s).relabel f := by
  cases front <;> rfl

theorem addArg_relabel (front : Option (ArgList × Lexeme .comma)) (a : ArgTree) :
    addArg (front.map (relabelMarked f (ArgList.relabel f))) (a.relabel f) =
      (addArg front a).relabel f := by
  cases front <;> rfl

theorem addBound_relabel (front : Option (BoundList × Lexeme .plus)) (b : BoundTree) :
    addBound (front.map (relabelMarked f (BoundList.relabel f))) (b.relabel f) =
      (addBound front b).relabel f := by
  cases front <;> rfl

theorem addPattern_relabel (front : Option (PatternList × Lexeme .comma)) (p : PatternTree) :
    addPattern (front.map (relabelMarked f (PatternList.relabel f))) (p.relabel f) =
      (addPattern front p).relabel f := by
  cases front <;> rfl

theorem Scope.add_relabel (scope : Scope) (attrs : List AttrTree) (body : MemberBody) :
    (scope.relabel f).add (attrs.map (AttrTree.relabel f)) (body.relabel f) =
      (scope.add attrs body).relabel f := by
  cases scope <;>
    simp [Scope.add, Scope.relabel, ItemTree.relabel, ItemBody.relabel, MemberTree.relabel]

theorem ResultPlace.add_relabel (p : ResultPlace) (result : Option (Lexeme .arrow × TypeTree))
    (ending : FnEnd) :
    (p.relabel f).add (result.map (relabelResult f)) (ending.relabel f) =
      (p.add result ending).relabel f := by
  rw [ResultPlace.add, ResultPlace.add, ← Scope.add_relabel]
  rfl

theorem ResultPlace.close_relabel (p : ResultPlace) (result : Option (Lexeme .arrow × TypeTree))
    (t : Token) :
    (p.relabel f).close (result.map (relabelResult f)) (t.relabel f) =
      (p.close result t).map (State.relabel f) := by
  obtain ⟨kind, l⟩ := t
  cases kind
  case semicolon =>
    exact congrArg (fun scope => some (State.item scope [])) (p.add_relabel result (.semicolon l))
  all_goals rfl

theorem ConstPlace.add_relabel (p : ConstPlace) (colon : Lexeme .colon) (t : TypeTree)
    (eq : Lexeme .equals) (value : Lexeme .initializer) (semi : Lexeme .semicolon) :
    (p.relabel f).add (f _ colon) (t.relabel f) (f _ eq) (f _ value) (f _ semi) =
      (p.add colon t eq value semi).relabel f := by
  rw [ConstPlace.add, ConstPlace.add, ← Scope.add_relabel]
  rfl

theorem ParamPlace.close_relabel (p : ParamPlace) (body : ParamBody) (t : Token) :
    (p.relabel f).close (body.relabel f) (t.relabel f) =
      (p.close body t).map (State.relabel f) := by
  have hadd : (p.relabel f).front.add ⟨(p.relabel f).attrs, body.relabel f⟩ =
      (p.front.add ⟨p.attrs, body⟩).relabel f (ParamTree.relabel f) :=
    Front.add_relabel p.front ⟨p.attrs, body⟩
  obtain ⟨kind, l⟩ := t
  cases kind
  case comma | rparen =>
    simp only [ParamPlace.close, Token.relabel, hadd]
    rfl
  all_goals rfl

theorem GenericPlace.finish_relabel (p : GenericPlace) (params : Series GenericTree)
    (closes : Lexeme .greater) :
    (p.relabel f).finish (params.relabel f (GenericTree.relabel f)) (f _ closes) =
      (p.finish params closes).relabel f := by
  obtain ⟨owner, opens, front⟩ := p
  cases owner <;> rfl

theorem GenericPlace.close_relabel (p : GenericPlace) (param : GenericTree) (t : Token) :
    (p.relabel f).close (param.relabel f) (t.relabel f) =
      (p.close param t).map (State.relabel f) := by
  have hadd : (p.relabel f).front.add (param.relabel f) =
      (p.front.add param).relabel f (GenericTree.relabel f) :=
    Front.add_relabel p.front param
  obtain ⟨kind, l⟩ := t
  cases kind
  case comma =>
    simp only [GenericPlace.close, Token.relabel, hadd]
    rfl
  case greater =>
    simp only [GenericPlace.close, Token.relabel, hadd, Option.map_some, ← finish_relabel]
    rfl
  all_goals rfl

theorem ArgPlace.close_relabel (p : ArgPlace) (arg : ArgTree) (outer : PathPlace) (t : Token) :
    (p.relabel f).close (arg.relabel f) (outer.relabel f) (t.relabel f) =
      (p.close arg outer t).map (State.relabel f) := by
  have hadd : addArg (p.relabel f).front (arg.relabel f) = (addArg p.front arg).relabel f :=
    addArg_relabel p.front arg
  obtain ⟨kind, l⟩ := t
  cases kind
  case comma | greater =>
    simp only [ArgPlace.close, Token.relabel, hadd]
    rfl
  all_goals rfl

mutual

theorem TypePlace.close_relabel (p : TypePlace) (tree : TypeTree) (t : Token) :
    (p.relabel f).close (tree.relabel f) (t.relabel f) =
      (p.close tree t).map (State.relabel f) := by
  cases p with
  | const place colon =>
    obtain ⟨kind, l⟩ := t
    cases kind <;> rfl
  | param place pattern colon => exact place.close_relabel (.typed pattern colon tree) t
  | result place arrow => exact place.close_relabel (some (arrow, tree)) t
  | subject place generics =>
    obtain ⟨kind, l⟩ := t
    cases kind <;> rfl
  | generic place word name colon => exact place.close_relabel (.const word name colon tree) t
  | target amp life mutable outer =>
    exact TypePlace.close_relabel outer (.ref amp life mutable tree) t
  | component opens front outer =>
    have hadd := addType_relabel (f := f) front tree
    obtain ⟨kind, l⟩ := t
    cases kind
    case comma | rparen =>
      simp only [TypePlace.relabel, TypePlace.close, Token.relabel, hadd]
      rfl
    all_goals rfl
  | element opens outer =>
    obtain ⟨kind, l⟩ := t
    cases kind <;> rfl
  | arg place outer => exact place.close_relabel (.type tree) outer t

theorem BoundPlace.close_relabel (p : BoundPlace) (b : BoundTree) (t : Token) :
    (p.relabel f).close (b.relabel f) (t.relabel f) = (p.close b t).map (State.relabel f) := by
  cases p with
  | object word front outer =>
    have hadd := addBound_relabel (f := f) front b
    have hclose := TypePlace.close_relabel outer (.object word (addBound front b)) t
    rw [TypeTree.relabel, ← hadd] at hclose
    obtain ⟨kind, l⟩ := t
    cases kind
    case plus =>
      simp only [BoundPlace.relabel, BoundPlace.close, Token.relabel, hadd]
      rfl
    all_goals exact hclose
  | generic place name colon front =>
    have hadd := addBound_relabel (f := f) front b
    have hclose := place.close_relabel (f := f) (.type name (some (colon, addBound front b))) t
    rw [GenericTree.relabel, Option.map_some, ← hadd] at hclose
    obtain ⟨kind, l⟩ := t
    cases kind
    case plus =>
      simp only [BoundPlace.relabel, BoundPlace.close, Token.relabel, hadd]
      rfl
    all_goals exact hclose

end

theorem PathPlace.close_relabel (p : PathPlace) (tree : PathTree) (t : Token) :
    (p.relabel f).close (tree.relabel f) (t.relabel f) =
      (p.close tree t).map (State.relabel f) := by
  cases p with
  | type outer => exact outer.close_relabel (.path tree) t
  | bound outer => exact outer.close_relabel (.path tree) t

theorem TypePlace.feed_relabel (p : TypePlace) (t : Token) :
    (p.relabel f).feed (t.relabel f) = (p.feed t).map (State.relabel f) := by
  obtain ⟨kind, l⟩ := t
  cases kind
  case lifetime =>
    cases p with
    | target amp life mutable outer => cases life <;> cases mutable <;> rfl
    | _ => rfl
  case mutWord =>
    cases p with
    | target amp life mutable outer => cases mutable <;> rfl
    | _ => rfl
  case less =>
    cases p with
    | subject place generics => cases generics <;> rfl
    | _ => rfl
  case rparen =>
    cases p with
    | component opens front outer => cases front <;> rfl
    | _ => rfl
  case greater =>
    cases p with
    | arg place outer =>
      obtain ⟨path, name, opens, front⟩ := place
      cases front <;> rfl
    | _ => rfl
  all_goals rfl

theorem PatternPlace.close_relabel (p : PatternPlace) (tree : PatternTree) (t : Token) :
    (p.relabel f).close (tree.relabel f) (t.relabel f) =
      (p.close tree t).map (State.relabel f) := by
  obtain ⟨kind, l⟩ := t
  cases p with
  | param place => cases kind <;> rfl
  | component opens front outer =>
    have hadd := addPattern_relabel (f := f) front tree
    cases kind
    case comma | rparen =>
      simp only [PatternPlace.relabel, PatternPlace.close, Token.relabel, hadd]
      rfl
    all_goals rfl

theorem feedComponent_relabel (opens : Lexeme .lparen)
    (front : Option (PatternList × Lexeme .comma)) (outer : PatternPlace) (t : Token) :
    feedComponent (f _ opens) (front.map (relabelMarked f (PatternList.relabel f)))
        (outer.relabel f) (t.relabel f) =
      (feedComponent opens front outer t).map (State.relabel f) := by
  obtain ⟨kind, l⟩ := t
  cases kind
  case rparen => cases front <;> rfl
  all_goals rfl

theorem ParamPlace.feed_relabel (p : ParamPlace) (t : Token) :
    (p.relabel f).feed (t.relabel f) = (p.feed t).map (State.relabel f) := by
  obtain ⟨kind, l⟩ := t
  cases kind
  case rparen =>
    obtain ⟨fn, generics, opens, front, attrs⟩ := p
    cases attrs <;> cases front <;> rfl
  all_goals rfl

theorem feedSelf_relabel (p : ParamPlace) (amp : Lexeme .amp) (life : Option (Lexeme .lifetime))
    (mutable : Option (Lexeme .mutWord)) (t : Token) :
    feedSelf (p.relabel f) (f _ amp) (life.map (f _)) (mutable.map (f _)) (t.relabel f) =
      (feedSelf p amp life mutable t).map (State.relabel f) := by
  obtain ⟨kind, l⟩ := t
  cases kind
  case lifetime | mutWord => cases life <;> cases mutable <;> rfl
  all_goals rfl

theorem AttrPlace.finish_relabel (p : AttrPlace) (content : Meta) (closes : Lexeme .rbracket) :
    (p.relabel f).finish (content.relabel f) (f _ closes) =
      (p.finish content closes).relabel f := by
  cases p <;>
    simp [AttrPlace.relabel, AttrPlace.finish, State.relabel, ParamPlace.relabel, AttrTree.relabel,
      ParamAttrTree.relabel]

theorem MetaPlace.close_relabel (p : MetaPlace) (entry : MetaItem) (t : Token) :
    (p.relabel f).close (entry.relabel f) (t.relabel f) =
      (p.close entry t).map (State.relabel f) := by
  have hadd : (p.relabel f).front.add (entry.relabel f) =
      (p.front.add entry).relabel f (MetaItem.relabel f) :=
    Front.add_relabel p.front entry
  obtain ⟨kind, l⟩ := t
  cases kind
  case comma | rparen =>
    simp only [MetaPlace.close, Token.relabel, hadd]
    rfl
  all_goals rfl

theorem RoutePlace.close_relabel (p : RoutePlace) (r : Route) (t : Token) :
    (p.relabel f).close (r.relabel f) (t.relabel f) = (p.close r t).map (State.relabel f) := by
  cases p with
  | content place =>
    obtain ⟨kind, l⟩ := t
    cases kind
    case rbracket => exact congrArg some (place.finish_relabel (.word r) l)
    all_goals rfl
  | item place =>
    have hclose := place.close_relabel (f := f) (.route r) t
    obtain ⟨kind, l⟩ := t
    cases kind
    case equals => rfl
    all_goals exact hclose

theorem Token.literal?_relabel (t : Token) :
    (t.relabel f).literal? = t.literal?.map (Literal.relabel f) := by
  obtain ⟨kind, l⟩ := t
  cases kind <;> rfl

theorem MetaPlace.feed_relabel (p : MetaPlace) (t : Token) :
    (p.relabel f).feed (t.relabel f) = (p.feed t).map (State.relabel f) := by
  obtain ⟨kind, l⟩ := t
  cases kind
  case rparen =>
    obtain ⟨attr, route, opens, front⟩ := p
    cases front <;> rfl
  all_goals rfl

theorem DeclPlace.feed_relabel (p : DeclPlace) (t : Token) :
    (p.relabel f).feed (t.relabel f) = (p.feed t).map (State.relabel f) := by
  obtain ⟨kind, l⟩ := t
  cases kind <;> rfl

theorem Scope.feed_relabel (scope : Scope) (attrs : List AttrTree) (t : Token) :
    (scope.relabel f).feed (attrs.map (AttrTree.relabel f)) (t.relabel f) =
      (scope.feed attrs t).map (State.relabel f) := by
  obtain ⟨kind, l⟩ := t
  cases kind
  case docComment =>
    change some (State.item _ (_ ++ [AttrTree.relabel f (.doc l)])) =
      some (State.item _ ((attrs ++ [AttrTree.doc l]).map _))
    rw [List.map_append, List.map_singleton]
  case implWord => cases scope <;> rfl
  case rbrace =>
    cases scope with
    | file items => rfl
    | block items outer head members =>
      cases attrs with
      | nil =>
        let item : ItemTree := ⟨outer, .block ⟨head, members, l⟩⟩
        change some (State.item (.file (_ ++ [item.relabel f])) []) =
          some (State.item (.file ((items ++ [item]).map _)) [])
        rw [List.map_append, List.map_singleton]
      | cons a attrs => rfl
  all_goals rfl

theorem State.feed_relabel (s : State) (t : Token) :
    (s.relabel f).feed (t.relabel f) = (s.feed t).map (State.relabel f) := by
  -- A state that leaves the token to a place, or to a literal, has a case of its own.
  cases s with
  | item scope attrs => exact scope.feed_relabel attrs t
  | route place r =>
    have hclose := place.close_relabel (f := f) r t
    obtain ⟨kind, l⟩ := t
    cases kind
    case colons => rfl
    all_goals exact hclose
  | metaEquals place r eq =>
    change (t.relabel f).literal?.map _ = (t.literal?.map _).map _
    rw [Token.literal?_relabel, Option.map_map, Option.map_map]
    rfl
  | metaContent place content =>
    obtain ⟨kind, l⟩ := t
    cases kind
    case rbracket => exact congrArg some (place.finish_relabel content l)
    all_goals rfl
  | metaItem place => exact place.feed_relabel t
  | metaItemEquals place r eq =>
    change (t.relabel f).literal?.map _ = (t.literal?.map _).map _
    rw [Token.literal?_relabel, Option.map_map, Option.map_map]
    rfl
  | metaItemDone place entry => exact place.close_relabel entry t
  | visibility scope attrs v =>
    have hfeed := DeclPlace.feed_relabel (f := f) ⟨scope, attrs, some v⟩ t
    obtain ⟨word, restriction⟩ := v
    obtain ⟨kind, l⟩ := t
    cases kind
    case lparen => cases restriction <;> rfl
    all_goals cases restriction <;> exact hfeed
  | params place =>
    have hclose := place.close_relabel (f := f) none t
    obtain ⟨kind, l⟩ := t
    cases kind
    case arrow => rfl
    all_goals exact hclose
  | bodyOpen place result opens =>
    obtain ⟨kind, l⟩ := t
    cases kind
    case rbrace =>
      exact congrArg (fun scope => some (State.item scope []))
        (place.add_relabel result (.block opens l))
    all_goals rfl
  | constValue place colon ty eq value =>
    obtain ⟨kind, l⟩ := t
    cases kind
    case semicolon =>
      exact congrArg (fun scope => some (State.item scope []))
        (place.add_relabel colon ty eq value l)
    all_goals rfl
  | generic place =>
    obtain ⟨kind, l⟩ := t
    cases kind
    case greater =>
      obtain ⟨owner, opens, front⟩ := place
      cases front <;> cases owner <;> rfl
    all_goals rfl
  | genericLifetime place name =>
    have hclose := place.close_relabel (f := f) (.lifetime name none) t
    obtain ⟨kind, l⟩ := t
    cases kind
    case colon => rfl
    all_goals exact hclose
  | outlives place name colon front =>
    obtain ⟨kind, l⟩ := t
    cases kind
    case lifetime => cases front <;> rfl
    all_goals rfl
  | outlived place name colon bounds =>
    have hclose := place.close_relabel (f := f) (.lifetime name (some (colon, bounds))) t
    obtain ⟨kind, l⟩ := t
    cases kind
    case plus => rfl
    all_goals exact hclose
  | genericType place name =>
    have hclose := place.close_relabel (f := f) (.type name none) t
    obtain ⟨kind, l⟩ := t
    cases kind
    case colon => rfl
    all_goals exact hclose
  | param place => exact place.feed_relabel t
  | selfAmp place amp life mutable => exact feedSelf_relabel place amp life mutable t
  | receiver place s => exact place.close_relabel (.receiver s) t
  | component opens front outer => exact feedComponent_relabel opens front outer t
  | pattern place p => exact place.close_relabel p t
  | type place => exact place.feed_relabel t
  | typeDone place tree => exact place.close_relabel tree t
  | path front s place =>
    have hadd := addSegment_relabel (f := f) front s
    have hclose := place.close_relabel (f := f) (addSegment front s) t
    rw [← hadd] at hclose
    obtain ⟨kind, l⟩ := t
    cases kind
    case colons =>
      exact congrArg (fun front => some (State.pathMark front (f _ l) (place.relabel f))) hadd
    case less => cases s <;> first | rfl | exact hclose
    all_goals cases s <;> exact hclose
  | argLifetime place l outer => exact place.close_relabel (.lifetime l) outer t
  | boundLifetime place l => exact place.close_relabel (.lifetime l) t
  | _ =>
    obtain ⟨kind, l⟩ := t
    cases kind <;> rfl

end NativeBinding.Grammar
