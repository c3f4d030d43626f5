import NativeBinding.Proofs.Grammar.Derivation
import NativeBinding.Proofs.Grammar.Reading

/-!
Every state can be completed. From any state some tokens lead to a state that a file may end in, so
what has been read is always the beginning of a sentence. The completions go from the inside out:
first what is open between items, then functions and constants, then the types, patterns and
attributes inside them.
-/

namespace NativeBinding.Grammar

def Lexeme.bare (kind : Terminal) : Lexeme kind :=
  ⟨"", .start, .start⟩

def Token.bare (kind : Terminal) : Token :=
  ⟨kind, .bare kind⟩

namespace State

def Completes (s : State) : Prop :=
  ∃ (ts : List Token) (s' : State), ts.foldlM feed s = some s' ∧ s'.finish?.isSome

theorem Completes.of_feed {s s₁ : State} (t : Token) (hfeed : s.feed t = some s₁)
    (h : s₁.Completes) : s.Completes := by
  obtain ⟨ts, s', hfeeds, hfinish⟩ := h
  refine ⟨t :: ts, s', ?_, hfinish⟩
  rw [List.foldlM_cons, hfeed]
  exact hfeeds

end State

open State (Completes)

variable {s : State}

theorem completes_of_bare (kind : Terminal) {s₁ : State} (hfeed : s.feed (.bare kind) = some s₁)
    (h : s₁.Completes) : s.Completes :=
  .of_feed _ hfeed h

theorem Scope.completes (scope : Scope) : (State.item scope []).Completes := by
  have hfile (items : List ItemTree) : (State.item (.file items) []).Completes :=
    ⟨[], _, rfl, rfl⟩
  cases scope with
  | file items => exact hfile items
  | block items attrs head members => exact completes_of_bare .rbrace rfl (hfile _)

theorem ResultPlace.completes (place : ResultPlace) : (State.params place).Completes :=
  completes_of_bare .semicolon rfl (Scope.completes _)

theorem ParamPlace.receiver_completes (place : ParamPlace) (r : SelfTree) :
    (State.receiver place r).Completes :=
  completes_of_bare .rparen rfl (ResultPlace.completes _)

theorem ParamPlace.completes (place : ParamPlace) : (State.param place).Completes :=
  completes_of_bare .selfWord rfl (place.receiver_completes _)

theorem FnPlace.completes (place : FnPlace) : (State.fnName place).Completes :=
  completes_of_bare .lparen rfl (ParamPlace.completes _)

theorem fnWord_completes (decl : DeclPlace) (asynchronous : Option (Lexeme .asyncWord))
    (word : Lexeme .fnWord) : (State.fnWord decl asynchronous word).Completes :=
  completes_of_bare .ident rfl (FnPlace.completes _)

theorem item_completes (scope : Scope) (attrs : List AttrTree) :
    (State.item scope attrs).Completes :=
  completes_of_bare .fnWord rfl (fnWord_completes ..)

theorem ConstPlace.value_completes (place : ConstPlace) (colon : Lexeme .colon) (t : TypeTree)
    (eq : Lexeme .equals) (value : Lexeme .initializer) :
    (State.constValue place colon t eq value).Completes :=
  completes_of_bare .semicolon rfl (Scope.completes _)

theorem ConstPlace.equals_completes (place : ConstPlace) (colon : Lexeme .colon) (t : TypeTree)
    (eq : Lexeme .equals) : (State.constEquals place colon t eq).Completes :=
  completes_of_bare .initializer rfl (place.value_completes ..)

/-- A token that ends a type in any place where it does not continue it. -/
def Token.Ends (t : Token) : Prop :=
  t.kind ≠ .colons ∧ t.kind ≠ .less ∧ t.kind ≠ .plus

def TypePlace.Closes (place : TypePlace) : Prop :=
  ∀ t, ∃ token s, token.Ends ∧ place.close t token = some s ∧ s.Completes

def PathPlace.Closes (place : PathPlace) : Prop :=
  ∀ p, ∃ token s, token.Ends ∧ place.close p token = some s ∧ s.Completes

def BoundPlace.Closes (place : BoundPlace) : Prop :=
  ∀ b, ∃ token s, token.Ends ∧ place.close b token = some s ∧ s.Completes

instance (t : Token) : Decidable t.Ends :=
  inferInstanceAs (Decidable (_ ∧ _))

theorem TypePlace.Closes.completes {place : TypePlace} (h : place.Closes) (t : TypeTree) :
    (State.typeDone place t).Completes := by
  obtain ⟨token, s, -, hclose, hs⟩ := h t
  exact .of_feed token hclose hs

theorem PathPlace.Closes.completes {place : PathPlace} (h : place.Closes)
    (front : Option (PathTree × Lexeme .colons)) (seg : SegmentTree) :
    (State.path front seg place).Completes := by
  obtain ⟨token, s, ⟨hcolons, hless, -⟩, hclose, hs⟩ := h (addSegment front seg)
  refine .of_feed token ?_ hs
  rw [State.feed.eq_def]
  split <;> simp_all

theorem GenericPlace.finish_completes (place : GenericPlace) (params : Series GenericTree)
    (closes : Lexeme .greater) : (place.finish params closes).Completes := by
  rw [finish]
  split
  · exact completes_of_bare .lparen rfl (ParamPlace.completes _)
  · exact completes_of_bare .wildcard rfl (completes_of_bare .lbrace rfl (Scope.completes _))

theorem GenericPlace.close_completes (place : GenericPlace) (param : GenericTree) :
    ∃ token s, token.Ends ∧ place.close param token = some s ∧ s.Completes :=
  ⟨.bare .greater, _, by decide, rfl, place.finish_completes _ _⟩

mutual

theorem TypePlace.closes : ∀ place : TypePlace, place.Closes
  | .const place colon => fun t =>
      ⟨.bare .equals, _, by decide, rfl, place.equals_completes colon t _⟩
  | .param place pattern colon => fun t =>
      ⟨.bare .rparen, _, by decide, rfl, ResultPlace.completes _⟩
  | .result place arrow => fun t => ⟨.bare .semicolon, _, by decide, rfl, Scope.completes _⟩
  | .subject place generics => fun t => ⟨.bare .lbrace, _, by decide, rfl, Scope.completes _⟩
  | .generic place word name colon => fun t => place.close_completes _
  | .target amp life mutable outer => fun t => outer.closes _
  | .component opens front outer => fun t =>
      ⟨.bare .rparen, _, by decide, rfl, outer.closes.completes _⟩
  | .element opens outer => fun t =>
      ⟨.bare .rbracket, _, by decide, rfl, outer.closes.completes _⟩
  | .arg place outer => fun t =>
      ⟨.bare .greater, _, by decide, rfl, outer.closes.completes _ _⟩

theorem PathPlace.closes : ∀ place : PathPlace, place.Closes
  | .type outer => fun _ => outer.closes _
  | .bound outer => fun _ => outer.closes _

theorem BoundPlace.closes : ∀ place : BoundPlace, place.Closes
  | .object word front outer => fun b => by
      obtain ⟨token, s, hends, hclose, hs⟩ := outer.closes (.object word (addBound front b))
      refine ⟨token, s, hends, ?_, hs⟩
      rw [BoundPlace.close]
      · exact hclose
      · rintro l rfl
        exact hends.2.2 rfl
  | .generic place name colon front => fun b => by
      obtain ⟨token, s, hends, hclose, hs⟩ :=
        place.close_completes (.type name (some (colon, addBound front b)))
      refine ⟨token, s, hends, ?_, hs⟩
      rw [BoundPlace.close]
      · exact hclose
      · rintro l rfl
        exact hends.2.2 rfl

end

theorem TypePlace.completes (place : TypePlace) : (State.type place).Completes :=
  completes_of_bare .wildcard rfl (place.closes.completes _)

theorem bound_completes (place : BoundPlace) : (State.bound place).Completes :=
  completes_of_bare .ident rfl (PathPlace.closes (.bound place) |>.completes _ _)

theorem PatternPlace.completes : ∀ (place : PatternPlace) (p : PatternTree),
    (State.pattern place p).Completes
  | .param _, _ => completes_of_bare .colon rfl (TypePlace.completes _)
  | .component _ _ outer, _ => completes_of_bare .rparen rfl (outer.completes _)

theorem component_completes (opens : Lexeme .lparen) (front : Option (PatternList × Lexeme .comma))
    (outer : PatternPlace) : (State.component opens front outer).Completes :=
  completes_of_bare .ident rfl (PatternPlace.completes _ _)

theorem metaContent_completes (place : AttrPlace) (content : Meta) :
    (State.metaContent place content).Completes := by
  refine completes_of_bare .rbracket rfl ?_
  cases place with
  | item scope attrs hash bang opens => exact item_completes _ _
  | param place hash opens => exact ParamPlace.completes _

theorem RoutePlace.completes (place : RoutePlace) (r : Route) :
    (State.route place r).Completes := by
  cases place with
  | content place =>
    exact completes_of_bare .equals rfl (completes_of_bare .trueWord rfl (metaContent_completes _ _))
  | item place => exact completes_of_bare .rparen rfl (metaContent_completes _ _)

theorem attrOpen_completes (place : AttrPlace) : (State.attrOpen place).Completes :=
  completes_of_bare .ident rfl (RoutePlace.completes _ _)

theorem metaItemDone_completes (place : MetaPlace) (item : MetaItem) :
    (State.metaItemDone place item).Completes :=
  completes_of_bare .rparen rfl (metaContent_completes _ _)

theorem GenericPlace.close_bare_completes (place : GenericPlace) (param : GenericTree)
    (hfeed : s.feed (.bare .greater) = place.close param (.bare .greater)) : s.Completes :=
  completes_of_bare .greater hfeed (place.finish_completes _ _)

theorem genericConstName_completes (place : GenericPlace) (word : Lexeme .constWord)
    (name : Lexeme .ident) : (State.genericConstName place word name).Completes :=
  completes_of_bare .colon rfl (TypePlace.completes _)

theorem outlived_completes (place : GenericPlace) (name : Lexeme .lifetime)
    (colon : Lexeme .colon) (bounds : Chain .plus (Lexeme .lifetime)) :
    (State.outlived place name colon bounds).Completes :=
  place.close_bare_completes _ rfl

theorem genericType_completes (place : GenericPlace) (name : Lexeme .ident) :
    (State.genericType place name).Completes :=
  place.close_bare_completes _ rfl

/-- No state is a dead end. -/
theorem State.completes (s : State) : s.Completes := by
  cases s with
  | item scope attrs => exact item_completes _ _
  | attrHash scope attrs hash => exact completes_of_bare .lbracket rfl (attrOpen_completes _)
  | attrBang scope attrs hash bang => exact completes_of_bare .lbracket rfl (attrOpen_completes _)
  | paramHash place hash => exact completes_of_bare .lbracket rfl (attrOpen_completes _)
  | attrOpen place => exact attrOpen_completes _
  | route place r => exact place.completes r
  | routeMark place r mark => exact completes_of_bare .ident rfl (place.completes _)
  | metaEquals place r eq => exact completes_of_bare .trueWord rfl (metaContent_completes _ _)
  | metaContent place content => exact metaContent_completes _ _
  | metaItem place => exact completes_of_bare .rparen rfl (metaContent_completes _ _)
  | metaItemEquals place r eq => exact completes_of_bare .trueWord rfl (metaItemDone_completes _ _)
  | metaItemDone place item => exact metaItemDone_completes _ _
  | visibility scope attrs v =>
    rcases v with ⟨word, _ | r⟩ <;> exact completes_of_bare .fnWord rfl (fnWord_completes ..)
  | restrictionOpen scope attrs word opens =>
    exact completes_of_bare .ident rfl (completes_of_bare .rparen rfl
      (completes_of_bare .fnWord rfl (fnWord_completes ..)))
  | restrictionName scope attrs word opens name =>
    exact completes_of_bare .rparen rfl (completes_of_bare .fnWord rfl (fnWord_completes ..))
  | asyncWord decl word => exact completes_of_bare .fnWord rfl (fnWord_completes ..)
  | fnWord decl asynchronous word => exact fnWord_completes ..
  | fnName place => exact place.completes
  | fnGenerics place generics => exact completes_of_bare .lparen rfl (ParamPlace.completes _)
  | params place => exact place.completes
  | bodyOpen place result opens => exact completes_of_bare .rbrace rfl (Scope.completes _)
  | constWord decl word =>
    exact completes_of_bare .ident rfl (completes_of_bare .colon rfl (TypePlace.completes _))
  | constName place => exact completes_of_bare .colon rfl (TypePlace.completes _)
  | constEquals place colon t eq => exact place.equals_completes colon t eq
  | constValue place colon t eq value => exact place.value_completes colon t eq value
  | generic place => exact completes_of_bare .ident rfl (genericType_completes ..)
  | genericLifetime place name => exact place.close_bare_completes _ rfl
  | outlives place name colon front =>
    exact completes_of_bare .lifetime rfl (outlived_completes ..)
  | outlived place name colon bounds => exact outlived_completes ..
  | genericType place name => exact genericType_completes ..
  | genericConst place word => exact completes_of_bare .ident rfl (genericConstName_completes ..)
  | genericConstName place word name => exact genericConstName_completes ..
  | param place => exact place.completes
  | paramMut place mutable => exact completes_of_bare .selfWord rfl (place.receiver_completes _)
  | selfAmp place amp life mutable =>
    exact completes_of_bare .selfWord rfl (place.receiver_completes _)
  | receiver place r => exact place.receiver_completes r
  | component opens front outer => exact component_completes ..
  | componentMut place mutable => exact completes_of_bare .ident rfl (place.completes _)
  | pattern place p => exact place.completes p
  | type place => exact place.completes
  | typeDone place t => exact place.closes.completes t
  | arraySemicolon opens item semi outer =>
    exact completes_of_bare .ident rfl (completes_of_bare .rbracket rfl (outer.closes.completes _))
  | arrayLength opens item semi length outer =>
    exact completes_of_bare .rbracket rfl (outer.closes.completes _)
  | path front seg place => exact place.closes.completes front seg
  | pathMark front mark place => exact completes_of_bare .ident rfl (place.closes.completes _ _)
  | argLifetime place l outer => exact completes_of_bare .greater rfl (outer.closes.completes _ _)
  | bound place => exact bound_completes place
  | boundLifetime place l =>
    obtain ⟨token, s, -, hclose, hs⟩ := place.closes (.lifetime l)
    exact .of_feed token hclose hs

theorem tokens_of_feeds {s s' : State} {ts : List Token} (h : ts.foldlM State.feed s = some s') :
    s'.tokens = s.tokens ++ ts := by
  induction ts generalizing s with
  | nil =>
    cases h
    simp
  | cons t ts ih =>
    rw [List.foldlM_cons] at h
    obtain ⟨s₁, hfeed, h⟩ := Option.bind_eq_some_iff.1 h
    rw [ih h, State.feed_tokens hfeed, List.append_assoc]
    rfl

theorem Reads.exists_derivation {text rest : List Char} {ts : List Token} {s : State}
    {p : Position} (h : Reads .start .start text ts s p rest) :
    ∃ d : Derivation, d.symbol = .nonterminal .start ∧ d.Valid ∧ ts <+: d.tokens := by
  obtain ⟨more, s', hfeeds, hfinish⟩ := s.completes
  obtain ⟨items, hitems⟩ := Option.isSome_iff_exists.1 hfinish
  refine ⟨fileNode items, rfl, valid_fileNode items, more, ?_⟩
  have hread : s.tokens = ts := h.tokens
  rw [tokens_fileNode, ← State.tokens_of_finish hitems, tokens_of_feeds hfeeds, hread]

end NativeBinding.Grammar
