import NativeBinding.Grammar.Read

/-!
What a state spells. `State.tokens` lists the tokens of a state from left to right: those of the
finished trees and of the places around the one in progress. Feeding a token adds it at the end, so
the trees of a file spell exactly the tokens that were read.
-/

namespace NativeBinding.Grammar

def marked {mark : Terminal} {α : Type} (spell : α → List Token) (f : α × Lexeme mark) :
    List Token :=
  spell f.1 ++ f.2.token

def Front.tokens {mark : Terminal} {α : Type} (spell : α → List Token) (front : Front mark α) :
    List Token :=
  optional (marked (Chain.tokens spell)) front

def Scope.tokens : Scope → List Token
  | file items => items.flatMap ItemTree.tokens
  | block items attrs head members =>
      items.flatMap ItemTree.tokens ++ attrs.flatMap AttrTree.tokens ++ head.tokens ++
        members.flatMap MemberTree.tokens

def DeclPlace.tokens (p : DeclPlace) : List Token :=
  p.scope.tokens ++ p.attrs.flatMap AttrTree.tokens ++ optional Visibility.tokens p.visibility

def BlockPlace.tokens (p : BlockPlace) : List Token :=
  p.items.flatMap ItemTree.tokens ++ p.attrs.flatMap AttrTree.tokens ++ p.word.token

def ConstPlace.tokens (p : ConstPlace) : List Token :=
  p.decl.tokens ++ p.word.token ++ p.name.token

def FnPlace.tokens (p : FnPlace) : List Token :=
  p.decl.tokens ++ optional Lexeme.token p.asynchronous ++ p.word.token ++ p.name.token

def ParamPlace.tokens (p : ParamPlace) : List Token :=
  p.fn.tokens ++ optional GenericsTree.tokens p.generics ++ p.opens.token ++
    p.front.tokens ParamTree.tokens ++ p.attrs.flatMap ParamAttrTree.tokens

def ResultPlace.tokens (p : ResultPlace) : List Token :=
  p.fn.tokens ++ optional GenericsTree.tokens p.generics ++ p.params.tokens ParamTree.tokens

def GenericsOwner.tokens : GenericsOwner → List Token
  | fn place => place.tokens
  | block place => place.tokens

def GenericPlace.tokens (p : GenericPlace) : List Token :=
  p.owner.tokens ++ p.opens.token ++ p.front.tokens GenericTree.tokens

def AttrPlace.tokens : AttrPlace → List Token
  | item scope attrs hash bang opens =>
      scope.tokens ++ attrs.flatMap AttrTree.tokens ++ hash.token ++
        optional Lexeme.token bang ++ opens.token
  | param place hash opens => place.tokens ++ hash.token ++ opens.token

def MetaPlace.tokens (p : MetaPlace) : List Token :=
  p.attr.tokens ++ p.route.tokens ++ p.opens.token ++ p.front.tokens MetaItem.tokens

def RoutePlace.tokens : RoutePlace → List Token
  | content place => place.tokens
  | item place => place.tokens

def ArgPlace.tokens (p : ArgPlace) : List Token :=
  optional (marked PathTree.tokens) p.path ++ p.name.token ++ p.opens.token ++
    optional (marked ArgList.tokens) p.front

mutual

def TypePlace.tokens : TypePlace → List Token
  | .const place colon => place.tokens ++ colon.token
  | .param place pattern colon => place.tokens ++ pattern.tokens ++ colon.token
  | .result place arrow => place.tokens ++ arrow.token
  | .subject place generics => place.tokens ++ optional GenericsTree.tokens generics
  | .generic place word name colon => place.tokens ++ word.token ++ name.token ++ colon.token
  | .target amp life mutable outer =>
      outer.tokens ++ amp.token ++ optional Lexeme.token life ++ optional Lexeme.token mutable
  | .component opens front outer =>
      outer.tokens ++ opens.token ++ optional (marked TypeList.tokens) front
  | .element opens outer => outer.tokens ++ opens.token
  | .arg place outer => outer.tokens ++ place.tokens

def PathPlace.tokens : PathPlace → List Token
  | .type outer => outer.tokens
  | .bound outer => outer.tokens

def BoundPlace.tokens : BoundPlace → List Token
  | .object word front outer =>
      outer.tokens ++ word.tokens ++ optional (marked BoundList.tokens) front
  | .generic place name colon front =>
      place.tokens ++ name.token ++ colon.token ++ optional (marked BoundList.tokens) front

end

def PatternPlace.tokens : PatternPlace → List Token
  | param place => place.tokens
  | component opens front outer =>
      outer.tokens ++ opens.token ++ optional (marked PatternList.tokens) front

def State.tokens : State → List Token
  | item scope attrs => scope.tokens ++ attrs.flatMap AttrTree.tokens
  | attrHash scope attrs hash => scope.tokens ++ attrs.flatMap AttrTree.tokens ++ hash.token
  | attrBang scope attrs hash bang =>
      scope.tokens ++ attrs.flatMap AttrTree.tokens ++ hash.token ++ bang.token
  | paramHash place hash => place.tokens ++ hash.token
  | attrOpen place => place.tokens
  | route place r => place.tokens ++ r.tokens
  | routeMark place r mark => place.tokens ++ r.tokens ++ mark.token
  | metaEquals place r eq => place.tokens ++ r.tokens ++ eq.token
  | metaContent place content => place.tokens ++ content.tokens
  | metaItem place => place.tokens
  | metaItemEquals place r eq => place.tokens ++ r.tokens ++ eq.token
  | metaItemDone place entry => place.tokens ++ entry.tokens
  | visibility scope attrs v => scope.tokens ++ attrs.flatMap AttrTree.tokens ++ v.tokens
  | restrictionOpen scope attrs word opens =>
      scope.tokens ++ attrs.flatMap AttrTree.tokens ++ word.token ++ opens.token
  | restrictionName scope attrs word opens name =>
      scope.tokens ++ attrs.flatMap AttrTree.tokens ++ word.token ++ opens.token ++ name.token
  | asyncWord decl word => decl.tokens ++ word.token
  | fnWord decl asynchronous word =>
      decl.tokens ++ optional Lexeme.token asynchronous ++ word.token
  | fnName place => place.tokens
  | fnGenerics place generics => place.tokens ++ generics.tokens
  | params place => place.tokens
  | bodyOpen place result opens =>
      place.tokens ++ optional (fun r => r.1.token ++ r.2.tokens) result ++ opens.token
  | constWord decl word => decl.tokens ++ word.token
  | constName place => place.tokens
  | constEquals place colon t eq => place.tokens ++ colon.token ++ t.tokens ++ eq.token
  | constValue place colon t eq value =>
      place.tokens ++ colon.token ++ t.tokens ++ eq.token ++ value.token
  | generic place => place.tokens
  | genericLifetime place name => place.tokens ++ name.token
  | outlives place name colon front =>
      place.tokens ++ name.token ++ colon.token ++ front.tokens Lexeme.token
  | outlived place name colon bounds =>
      place.tokens ++ name.token ++ colon.token ++ bounds.tokens Lexeme.token
  | genericType place name => place.tokens ++ name.token
  | genericConst place word => place.tokens ++ word.token
  | genericConstName place word name => place.tokens ++ word.token ++ name.token
  | param place => place.tokens
  | paramMut place mutable => place.tokens ++ mutable.token
  | selfAmp place amp life mutable =>
      place.tokens ++ amp.token ++ optional Lexeme.token life ++ optional Lexeme.token mutable
  | receiver place s => place.tokens ++ s.tokens
  | component opens front outer =>
      outer.tokens ++ opens.token ++ optional (marked PatternList.tokens) front
  | componentMut place mutable => place.tokens ++ mutable.token
  | pattern place p => place.tokens ++ p.tokens
  | type place => place.tokens
  | typeDone place t => place.tokens ++ t.tokens
  | arraySemicolon opens element semi outer =>
      outer.tokens ++ opens.token ++ element.tokens ++ semi.token
  | arrayLength opens element semi length outer =>
      outer.tokens ++ opens.token ++ element.tokens ++ semi.token ++ length.tokens
  | path front s place => place.tokens ++ optional (marked PathTree.tokens) front ++ s.tokens
  | pathMark front mark place => place.tokens ++ front.tokens ++ mark.token
  | argLifetime place l outer => outer.tokens ++ place.tokens ++ l.token
  | bound place => place.tokens
  | boundLifetime place l => place.tokens ++ l.token

@[simp] theorem optional_none {α : Type} (spell : α → List Token) :
    optional spell none = [] := rfl

@[simp] theorem optional_some {α : Type} (spell : α → List Token) (a : α) :
    optional spell (some a) = spell a := rfl

@[simp] theorem optional_map {α β : Type} (spell : β → List Token) (f : α → β) (o : Option α) :
    optional spell (o.map f) = optional (fun a => spell (f a)) o := by
  cases o <;> rfl

@[simp] theorem Front.add_tokens {mark : Terminal} {α : Type} (spell : α → List Token)
    (front : Front mark α) (a : α) :
    (front.add a).tokens spell = front.tokens spell ++ spell a := by
  cases front <;> simp [Front.add, Front.tokens, Chain.tokens, marked, Lexeme.token]

@[simp] theorem addType_tokens (front : Option (TypeList × Lexeme .comma)) (t : TypeTree) :
    (addType front t).tokens = optional (marked TypeList.tokens) front ++ t.tokens := by
  cases front <;> simp [addType, TypeList.tokens, marked]

@[simp] theorem addSegment_tokens (front : Option (PathTree × Lexeme .colons)) (s : SegmentTree) :
    (addSegment front s).tokens = optional (marked PathTree.tokens) front ++ s.tokens := by
  cases front <;> simp [addSegment, PathTree.tokens, marked]

@[simp] theorem addArg_tokens (front : Option (ArgList × Lexeme .comma)) (a : ArgTree) :
    (addArg front a).tokens = optional (marked ArgList.tokens) front ++ a.tokens := by
  cases front <;> simp [addArg, ArgList.tokens, marked]

@[simp] theorem addBound_tokens (front : Option (BoundList × Lexeme .plus)) (b : BoundTree) :
    (addBound front b).tokens = optional (marked BoundList.tokens) front ++ b.tokens := by
  cases front <;> simp [addBound, BoundList.tokens, marked]

@[simp] theorem addPattern_tokens (front : Option (PatternList × Lexeme .comma))
    (p : PatternTree) :
    (addPattern front p).tokens = optional (marked PatternList.tokens) front ++ p.tokens := by
  cases front <;> simp [addPattern, PatternList.tokens, marked]

@[simp] theorem Scope.add_tokens (scope : Scope) (attrs : List AttrTree) (body : MemberBody) :
    (scope.add attrs body).tokens =
      scope.tokens ++ attrs.flatMap AttrTree.tokens ++ body.tokens := by
  cases scope <;>
    simp [Scope.add, Scope.tokens, ItemTree.tokens, ItemBody.tokens, MemberTree.tokens]

theorem ResultPlace.close_tokens {p : ResultPlace} {result : Option (Lexeme .arrow × TypeTree)}
    {t : Token} {s : State} (h : p.close result t = some s) :
    s.tokens = p.tokens ++ optional (fun r => r.1.token ++ r.2.tokens) result ++ [t] := by
  obtain ⟨kind, l⟩ := t
  cases kind <;> simp only [ResultPlace.close, reduceCtorEq, Option.some.injEq] at h
  all_goals subst h
  all_goals
    simp [State.tokens, ResultPlace.add, ResultPlace.tokens, FnPlace.tokens, DeclPlace.tokens,
      MemberBody.tokens, FnTree.tokens, FnEnd.tokens, Lexeme.token]

theorem ParamPlace.close_tokens {p : ParamPlace} {body : ParamBody} {t : Token} {s : State}
    (h : p.close body t = some s) : s.tokens = p.tokens ++ body.tokens ++ [t] := by
  obtain ⟨kind, l⟩ := t
  cases kind <;> simp only [ParamPlace.close, reduceCtorEq, Option.some.injEq] at h
  all_goals subst h
  all_goals
    simp [State.tokens, ParamPlace.finish, ParamPlace.tokens, ResultPlace.tokens, Group.tokens,
      Series.tokens, Front.tokens, marked, ParamTree.tokens, Lexeme.token]

theorem GenericPlace.finish_tokens (p : GenericPlace) (params : Series GenericTree)
    (closes : Lexeme .greater) :
    (p.finish params closes).tokens =
      p.owner.tokens ++ p.opens.token ++ params.tokens GenericTree.tokens ++ closes.token := by
  rw [GenericPlace.finish]
  cases p.owner <;>
    simp [State.tokens, TypePlace.tokens, GenericsOwner.tokens, GenericsTree.tokens]

theorem GenericPlace.close_tokens {p : GenericPlace} {param : GenericTree} {t : Token} {s : State}
    (h : p.close param t = some s) : s.tokens = p.tokens ++ param.tokens ++ [t] := by
  obtain ⟨kind, l⟩ := t
  cases kind <;> simp only [GenericPlace.close, reduceCtorEq, Option.some.injEq] at h
  all_goals subst h
  · simp [State.tokens, GenericPlace.tokens, Front.tokens, marked, Lexeme.token]
  · simp [GenericPlace.finish_tokens, GenericPlace.tokens, Front.tokens, Series.tokens,
      Lexeme.token]

theorem ArgPlace.close_tokens {p : ArgPlace} {arg : ArgTree} {outer : PathPlace} {t : Token}
    {s : State} (h : p.close arg outer t = some s) :
    s.tokens = outer.tokens ++ p.tokens ++ arg.tokens ++ [t] := by
  obtain ⟨kind, l⟩ := t
  cases kind <;> simp only [ArgPlace.close, reduceCtorEq, Option.some.injEq] at h
  all_goals subst h
  all_goals
    simp [State.tokens, TypePlace.tokens, ArgPlace.finish, ArgPlace.tokens, SegmentTree.tokens,
      marked, Lexeme.token]

mutual

theorem TypePlace.close_tokens {p : TypePlace} {tree : TypeTree} {t : Token} {s : State}
    (h : p.close tree t = some s) : s.tokens = p.tokens ++ tree.tokens ++ [t] := by
  cases p with
  | const place colon =>
    obtain ⟨kind, l⟩ := t
    cases kind <;> simp only [TypePlace.close, reduceCtorEq, Option.some.injEq] at h
    subst h
    simp [State.tokens, TypePlace.tokens, Lexeme.token]
  | param place pattern colon =>
    rw [ParamPlace.close_tokens h]
    simp [TypePlace.tokens, ParamBody.tokens]
  | result place arrow =>
    rw [ResultPlace.close_tokens h]
    simp [TypePlace.tokens]
  | subject place generics =>
    obtain ⟨kind, l⟩ := t
    cases kind <;> simp only [TypePlace.close, reduceCtorEq, Option.some.injEq] at h
    subst h
    simp [State.tokens, Scope.tokens, TypePlace.tokens, BlockPlace.tokens, BlockHead.tokens,
      Lexeme.token]
  | generic place word name colon =>
    rw [GenericPlace.close_tokens h]
    simp [TypePlace.tokens, GenericTree.tokens]
  | target amp life mutable outer =>
    rw [TypePlace.close] at h
    rw [TypePlace.close_tokens h]
    simp [TypePlace.tokens, TypeTree.tokens]
  | component opens front outer =>
    obtain ⟨kind, l⟩ := t
    cases kind <;> simp only [TypePlace.close, reduceCtorEq, Option.some.injEq] at h
    all_goals subst h
    all_goals simp [State.tokens, TypePlace.tokens, TypeTree.tokens, marked, Lexeme.token]
  | element opens outer =>
    obtain ⟨kind, l⟩ := t
    cases kind <;> simp only [TypePlace.close, reduceCtorEq, Option.some.injEq] at h
    all_goals subst h
    all_goals simp [State.tokens, TypePlace.tokens, TypeTree.tokens, Lexeme.token]
  | arg place outer =>
    rw [ArgPlace.close_tokens h]
    simp [TypePlace.tokens, ArgTree.tokens]

theorem BoundPlace.close_tokens {p : BoundPlace} {b : BoundTree} {t : Token} {s : State}
    (h : p.close b t = some s) : s.tokens = p.tokens ++ b.tokens ++ [t] := by
  cases p with
  | object word front outer =>
    rw [BoundPlace.close.eq_def] at h
    dsimp only at h
    split at h
    · cases h
      simp [State.tokens, BoundPlace.tokens, marked, Lexeme.token]
    · rw [TypePlace.close_tokens h]
      simp [BoundPlace.tokens, TypeTree.tokens]
  | generic place name colon front =>
    rw [BoundPlace.close.eq_def] at h
    dsimp only at h
    split at h
    · cases h
      simp [State.tokens, BoundPlace.tokens, marked, Lexeme.token]
    · rw [GenericPlace.close_tokens h]
      simp [BoundPlace.tokens, GenericTree.tokens]

end

theorem PathPlace.close_tokens {p : PathPlace} {tree : PathTree} {t : Token} {s : State}
    (h : p.close tree t = some s) : s.tokens = p.tokens ++ tree.tokens ++ [t] := by
  cases p with
  | type outer =>
    rw [TypePlace.close_tokens h]
    simp [PathPlace.tokens, TypeTree.tokens]
  | bound outer =>
    rw [BoundPlace.close_tokens h]
    simp [PathPlace.tokens, BoundTree.tokens]

theorem TypePlace.feed_tokens {p : TypePlace} {t : Token} {s : State} (h : p.feed t = some s) :
    s.tokens = p.tokens ++ [t] := by
  obtain ⟨kind, l⟩ := t
  rw [TypePlace.feed.eq_def] at h
  cases kind <;> dsimp only at h
  case greater =>
    cases p with
    | arg args outer =>
      obtain ⟨f, hf, rfl⟩ := Option.map_eq_some_iff.1 h
      simp [State.tokens, TypePlace.tokens, ArgPlace.finish, ArgPlace.tokens, hf, marked,
        SegmentTree.tokens, Lexeme.token]
    | _ => cases h
  all_goals try split at h
  all_goals cases h
  all_goals
    simp [State.tokens, TypePlace.tokens, PathPlace.tokens, BoundPlace.tokens, TypeTree.tokens,
      SegmentTree.tokens, ObjectWord.tokens, GenericPlace.tokens, GenericsOwner.tokens,
      Front.tokens, marked, Lexeme.token]

theorem PatternPlace.close_tokens {p : PatternPlace} {tree : PatternTree} {t : Token} {s : State}
    (h : p.close tree t = some s) : s.tokens = p.tokens ++ tree.tokens ++ [t] := by
  obtain ⟨kind, l⟩ := t
  cases p <;> cases kind <;> simp only [PatternPlace.close, reduceCtorEq, Option.some.injEq] at h
  all_goals subst h
  all_goals
    simp [State.tokens, TypePlace.tokens, PatternPlace.tokens, PatternTree.tokens, marked,
      Lexeme.token]

theorem feedComponent_tokens {opens : Lexeme .lparen}
    {front : Option (PatternList × Lexeme .comma)} {outer : PatternPlace} {t : Token} {s : State}
    (h : feedComponent opens front outer t = some s) :
    s.tokens =
      outer.tokens ++ opens.token ++ optional (marked PatternList.tokens) front ++ [t] := by
  obtain ⟨kind, l⟩ := t
  rw [feedComponent.eq_def] at h
  cases kind <;> dsimp only at h
  all_goals try split at h
  all_goals cases h
  all_goals
    simp [State.tokens, PatternPlace.tokens, PatternTree.tokens, marked, Lexeme.token]

theorem ParamPlace.feed_tokens {p : ParamPlace} {t : Token} {s : State} (h : p.feed t = some s) :
    s.tokens = p.tokens ++ [t] := by
  obtain ⟨kind, l⟩ := t
  rw [ParamPlace.feed.eq_def] at h
  cases kind <;> dsimp only at h
  case rparen =>
    split at h
    · next hattrs =>
      cases h
      cases hfront : p.front <;>
        simp [State.tokens, ParamPlace.finish, ParamPlace.tokens, ResultPlace.tokens, Group.tokens,
          Series.tokens, Front.tokens, marked, Lexeme.token, hattrs, hfront]
    · cases h
  all_goals cases h
  all_goals
    simp [State.tokens, PatternPlace.tokens, PatternTree.tokens, SelfTree.tokens, Lexeme.token]

theorem feedSelf_tokens {p : ParamPlace} {amp : Lexeme .amp} {life : Option (Lexeme .lifetime)}
    {mutable : Option (Lexeme .mutWord)} {t : Token} {s : State}
    (h : feedSelf p amp life mutable t = some s) :
    s.tokens = p.tokens ++ amp.token ++ optional Lexeme.token life ++
      optional Lexeme.token mutable ++ [t] := by
  obtain ⟨kind, l⟩ := t
  rw [feedSelf.eq_def] at h
  cases kind <;> dsimp only at h
  all_goals try split at h
  all_goals cases h
  all_goals simp [State.tokens, SelfTree.tokens, Lexeme.token]

theorem AttrPlace.finish_tokens (content : Meta) (closes : Lexeme .rbracket) (p : AttrPlace) :
    (p.finish content closes).tokens = p.tokens ++ content.tokens ++ closes.token := by
  cases p <;>
    simp [AttrPlace.finish, State.tokens, AttrPlace.tokens, AttrTree.tokens, ParamPlace.tokens,
      ParamAttrTree.tokens]

theorem MetaPlace.close_tokens {p : MetaPlace} {entry : MetaItem} {t : Token} {s : State}
    (h : p.close entry t = some s) : s.tokens = p.tokens ++ entry.tokens ++ [t] := by
  obtain ⟨kind, l⟩ := t
  cases kind <;> simp only [MetaPlace.close, reduceCtorEq, Option.some.injEq] at h
  all_goals subst h
  all_goals
    simp [State.tokens, MetaPlace.tokens, Meta.tokens, Group.tokens, Series.tokens, Front.tokens,
      marked, Lexeme.token]

theorem RoutePlace.close_tokens {p : RoutePlace} {r : Route} {t : Token} {s : State}
    (h : p.close r t = some s) : s.tokens = p.tokens ++ r.tokens ++ [t] := by
  obtain ⟨kind, l⟩ := t
  cases p with
  | content place =>
    cases kind <;> simp only [RoutePlace.close, reduceCtorEq, Option.some.injEq] at h
    case rbracket =>
      subst h
      simp [AttrPlace.finish_tokens, Meta.tokens, RoutePlace.tokens, Lexeme.token]
    all_goals subst h
    all_goals
      simp [State.tokens, MetaPlace.tokens, Front.tokens, RoutePlace.tokens, Lexeme.token]
  | item place =>
    rw [RoutePlace.close.eq_def] at h
    cases kind <;> dsimp only at h
    case equals =>
      cases h
      simp [State.tokens, RoutePlace.tokens, Lexeme.token]
    all_goals
      rw [MetaPlace.close_tokens h]
      simp [RoutePlace.tokens, MetaItem.tokens]

theorem Token.literal?_tokens {t : Token} {value : Literal} (h : t.literal? = some value) :
    value.tokens = [t] := by
  obtain ⟨kind, l⟩ := t
  cases kind <;> simp only [Token.literal?, reduceCtorEq, Option.some.injEq] at h
  all_goals subst h
  all_goals rfl

theorem MetaPlace.feed_tokens {p : MetaPlace} {t : Token} {s : State} (h : p.feed t = some s) :
    s.tokens = p.tokens ++ [t] := by
  obtain ⟨kind, l⟩ := t
  rw [MetaPlace.feed.eq_def] at h
  cases kind <;> dsimp only at h
  case ident =>
    cases h
    simp [State.tokens, RoutePlace.tokens, Route.tokens, Chain.tokens, Lexeme.token]
  case rparen =>
    cases h
    cases hfront : p.front <;>
      simp [State.tokens, MetaPlace.tokens, Meta.tokens, Group.tokens, Series.tokens, Front.tokens,
        marked, Lexeme.token, hfront]
  all_goals
    obtain ⟨value, hvalue, rfl⟩ := Option.map_eq_some_iff.1 h
    simp [State.tokens, MetaItem.tokens, Token.literal?_tokens hvalue]

theorem DeclPlace.feed_tokens {p : DeclPlace} {t : Token} {s : State} (h : p.feed t = some s) :
    s.tokens = p.tokens ++ [t] := by
  obtain ⟨kind, l⟩ := t
  cases kind <;> simp only [DeclPlace.feed, reduceCtorEq, Option.some.injEq] at h
  all_goals subst h
  all_goals simp [State.tokens, Lexeme.token]

theorem Scope.feed_tokens {scope : Scope} {attrs : List AttrTree} {t : Token} {s : State}
    (h : scope.feed attrs t = some s) :
    s.tokens = scope.tokens ++ attrs.flatMap AttrTree.tokens ++ [t] := by
  obtain ⟨kind, l⟩ := t
  rw [Scope.feed.eq_def] at h
  cases kind <;> dsimp only at h
  case hash | docComment | pubWord =>
    cases h
    simp [State.tokens, AttrTree.tokens, Visibility.tokens, Lexeme.token]
  case implWord =>
    cases scope <;> cases h
    simp [State.tokens, TypePlace.tokens, BlockPlace.tokens, Scope.tokens, Lexeme.token]
  case rbrace =>
    split at h <;> cases h
    simp [State.tokens, Scope.tokens, ItemTree.tokens, ItemBody.tokens, BlockTree.tokens,
      Lexeme.token]
  all_goals
    rw [DeclPlace.feed_tokens h]
    simp [DeclPlace.tokens]

/-- Reading on never rearranges what has been read. -/
theorem State.feed_tokens {s s' : State} {t : Token} (h : s.feed t = some s') :
    s'.tokens = s.tokens ++ [t] := by
  rw [State.feed.eq_def] at h
  -- One case for each line of `feed`, in its order: a line that names no state leaves the token to
  -- a place, or to a literal.
  split at h
  case h_1 => exact Scope.feed_tokens h
  case h_8 => exact RoutePlace.close_tokens h
  case h_10 | h_13 =>
    obtain ⟨value, hvalue, rfl⟩ := Option.map_eq_some_iff.1 h
    simp [tokens, Meta.tokens, MetaItem.tokens, Token.literal?_tokens hvalue]
  case h_11 =>
    cases h
    rw [AttrPlace.finish_tokens]
    simp [tokens, Lexeme.token]
  case h_12 => exact MetaPlace.feed_tokens h
  case h_14 => exact MetaPlace.close_tokens h
  case h_16 =>
    rw [DeclPlace.feed_tokens h]
    simp [tokens, DeclPlace.tokens]
  case h_25 =>
    rw [ResultPlace.close_tokens h]
    simp [tokens]
  case h_34 place l =>
    obtain ⟨f, hf, rfl⟩ := Option.map_eq_some_iff.1 h
    rw [GenericPlace.finish_tokens]
    simp [tokens, GenericPlace.tokens, Front.tokens, Series.tokens, marked, hf, Lexeme.token]
  case h_36 | h_39 | h_41 =>
    rw [GenericPlace.close_tokens h]
    simp [tokens, GenericTree.tokens]
  case h_44 => exact ParamPlace.feed_tokens h
  case h_47 => exact feedSelf_tokens h
  case h_48 => exact ParamPlace.close_tokens h
  case h_49 => exact feedComponent_tokens h
  case h_51 => exact PatternPlace.close_tokens h
  case h_52 => exact TypePlace.feed_tokens h
  case h_53 => exact TypePlace.close_tokens h
  case h_59 =>
    rw [PathPlace.close_tokens h]
    simp [tokens]
  case h_61 =>
    rw [ArgPlace.close_tokens h]
    simp [tokens, ArgTree.tokens]
  case h_64 => exact BoundPlace.close_tokens h
  all_goals cases h
  all_goals
    simp [tokens, AttrPlace.tokens, RoutePlace.tokens, Route.tokens, Chain.tokens,
      Visibility.tokens, FnPlace.tokens, ConstPlace.tokens, ParamPlace.tokens, ResultPlace.add,
      ResultPlace.tokens, ConstPlace.add, MemberBody.tokens, FnTree.tokens, FnEnd.tokens,
      ConstTree.tokens, GenericPlace.tokens, GenericsOwner.tokens, DeclPlace.tokens, Front.tokens,
      marked, TypePlace.tokens, PathPlace.tokens, BoundPlace.tokens, PatternPlace.tokens,
      PatternTree.tokens, SelfTree.tokens, TypeTree.tokens, ArrayLength.tokens, SegmentTree.tokens,
      ArgPlace.tokens, Lexeme.token]

end NativeBinding.Grammar
