import NativeBinding.Decl.OfTree
import NativeBinding.Proofs.Grammar.Words

/-!
Legible types: names, lifetimes and lengths are lexemes, and no path starts with a word that is none
where the path stands. Reading builds no others. The invariant says this of all types that are
complete, and of each path and list in progress as far as it goes.
-/

namespace NativeBinding

open Grammar

inductive Lead
  | bound
  | type
  /-- Behind an ampersand, where `mut` could stand too. -/
  | target
  deriving DecidableEq

def Lead.words : Lead → List Terminal
  | bound => []
  | type => [.wildcard, .dynWord, .implWord]
  | target => [.mutWord, .wildcard, .dynWord, .implWord]

def Lead.ofTarget (mutable : Bool) : Lead :=
  if mutable then type else target

inductive TypeExpr.Legible : Lead → TypeExpr → Prop
  | path {lead : Lead} {segments lifetimes : List String} {args : List TypeExpr} {span : Span}
      (hne : segments ≠ []) (hnames : ∀ s ∈ segments, IsIdent s.toList)
      (hlead : ∀ s ∈ segments.head?, ∀ k ∈ lead.words, ¬ k.Spells s.toList)
      (hlifetimes : ∀ l ∈ lifetimes, IsLifetime l.toList) (hargs : ∀ a ∈ args, Legible .type a) :
      Legible lead (.path segments lifetimes args span)
  | ref {lead : Lead} {lifetime : Option String} {mutable : Bool} {target : TypeExpr} {span : Span}
      (hlead : lead ≠ .bound) (hlifetime : ∀ l ∈ lifetime, IsLifetime l.toList)
      (htarget : Legible (.ofTarget mutable) target) :
      Legible lead (.ref lifetime mutable target span)
  | tuple {lead : Lead} {items : List TypeExpr} {span : Span} (hlead : lead ≠ .bound)
      (hitems : ∀ t ∈ items, Legible .type t) : Legible lead (.tuple items span)
  | slice {lead : Lead} {item : TypeExpr} {length : Option String} {span : Span}
      (hlead : lead ≠ .bound) (hitem : Legible .type item)
      (hlength : ∀ n ∈ length, IsIdent n.toList ∨ IsNumber n.toList) :
      Legible lead (.slice item length span)
  | object {lead : Lead} {kind : ObjectKind} {bounds : List TypeExpr} {lifetimes : List String}
      {span : Span} (hlead : lead ≠ .bound) (hne : bounds ≠ [] ∨ lifetimes ≠ [])
      (hbounds : ∀ b ∈ bounds, Legible .bound b)
      (hlifetimes : ∀ l ∈ lifetimes, IsLifetime l.toList) :
      Legible lead (.object kind bounds lifetimes span)
  | inferred {lead : Lead} {span : Span} (hlead : lead ≠ .bound) : Legible lead (.inferred span)

def Param.type? : Param → Option TypeExpr
  | self _ => none
  | typed p => some p.type

def FnDecl.types (d : FnDecl) : List TypeExpr :=
  d.params.filterMap Param.type? ++ d.result.toList

def Decl.types : Decl → List TypeExpr
  | fn d => d.types
  | const d => [d.type]

def SourceItem.types : SourceItem → List TypeExpr
  | decl d => d.types
  | block b => b.header.subject :: b.members.flatMap Decl.types

def SourceFile.types (f : SourceFile) : List TypeExpr :=
  f.items.flatMap SourceItem.types

namespace Grammar

def ParamTree.type? (p : ParamTree) : Option TypeTree :=
  match p.body with
  | .receiver _ => none
  | .typed _ _ t => some t

def MemberBody.types : MemberBody → List TypeTree
  | fn f => f.params.toList.filterMap ParamTree.type? ++ (f.result.map (·.2)).toList
  | const c => [c.type]

def ItemTree.types (t : ItemTree) : List TypeTree :=
  match t.body with
  | .member m => m.types
  | .block b => b.head.subject :: b.members.flatMap (·.body.types)

def Front.toList {mark : Terminal} {α : Type} : Front mark α → List α
  | none => []
  | some f => f.1.toList

theorem Front.add_toList {mark : Terminal} {α : Type} (front : Front mark α) (a : α) :
    (front.add a).toList = front.toList ++ [a] := by
  cases front <;> rfl

def Scope.types : Scope → List TypeTree
  | file items => items.flatMap ItemTree.types
  | block items _ head members =>
      items.flatMap ItemTree.types ++ head.subject :: members.flatMap (·.body.types)

def BlockPlace.types (p : BlockPlace) : List TypeTree :=
  p.items.flatMap ItemTree.types

def ParamPlace.types (p : ParamPlace) : List TypeTree :=
  p.fn.decl.scope.types ++ p.front.toList.filterMap ParamTree.type?

def ResultPlace.types (p : ResultPlace) : List TypeTree :=
  p.fn.decl.scope.types ++ p.params.toList.filterMap ParamTree.type?

def GenericsOwner.types : GenericsOwner → List TypeTree
  | fn place => place.decl.scope.types
  | block place => place.types

section

variable (file : Option String)

def Declared (ts : List TypeTree) : Prop :=
  ∀ t ∈ ts, (TypeExpr.ofTree file t).Legible .type

def TypeList.Legible (ts : TypeList) : Prop :=
  ∀ t ∈ TypeExpr.ofList file ts, t.Legible .type

structure ArgList.Legible (as : ArgList) : Prop where
  args : ∀ a ∈ TypeExpr.ofArgs file as, a.Legible .type
  lifetimes : ∀ l ∈ as.lifetimes, IsLifetime l.toList

structure BoundList.Legible (bs : BoundList) : Prop where
  bounds : ∀ b ∈ TypeExpr.ofBounds file bs, b.Legible .bound
  lifetimes : ∀ l ∈ bs.lifetimes, IsLifetime l.toList

structure PathTree.Legible (lead : Lead) (p : PathTree) : Prop where
  names : ∀ s ∈ p.names, IsIdent s.toList
  lead : ∀ s ∈ p.names.head?, ∀ k ∈ lead.words, ¬ k.Spells s.toList
  lifetimes : ∀ l ∈ p.lifetimes, IsLifetime l.toList
  args : ∀ a ∈ TypeExpr.argsOfPath file p, a.Legible .type

/-- The path so far is legible without the arguments of its last segment, and so are these. -/
structure ArgPlace.Legible (lead : Lead) (p : ArgPlace) : Prop where
  path : (addSegment p.path (.plain p.name)).Legible file lead
  front : ∀ f ∈ p.front, f.1.Legible file

end

def TypePlace.lead : TypePlace → Lead
  | .target _ _ none _ => .target
  | _ => .type

def PathPlace.lead : PathPlace → Lead
  | .type outer => outer.lead
  | .bound _ => .bound

section

variable (file : Option String)

mutual

def TypePlace.Legible : TypePlace → Prop
  | .const place _ => Declared file place.decl.scope.types
  | .param place _ _ => Declared file place.types
  | .result place _ => Declared file place.types
  | .subject place _ => Declared file place.types
  | .generic place _ _ _ => Declared file place.owner.types
  | .target _ life _ outer => outer.Legible ∧ ∀ l ∈ life, IsLifetime l.text.toList
  | .component _ front outer => outer.Legible ∧ ∀ f ∈ front, f.1.Legible file
  | .element _ outer => outer.Legible
  | .arg place outer => outer.Legible ∧ place.Legible file outer.lead

def PathPlace.Legible : PathPlace → Prop
  | .type outer => outer.Legible
  | .bound outer => outer.Legible

def BoundPlace.Legible : BoundPlace → Prop
  | .object _ front outer => outer.Legible ∧ ∀ f ∈ front, f.1.Legible file
  | .generic place _ _ _ => Declared file place.owner.types

end

def AttrPlace.Legible : AttrPlace → Prop
  | item scope _ _ _ _ => Declared file scope.types
  | param place _ _ => Declared file place.types

def RoutePlace.Legible : RoutePlace → Prop
  | content place => place.Legible file
  | item place => place.attr.Legible file

def PatternPlace.Legible : PatternPlace → Prop
  | param place => Declared file place.types
  | component _ _ outer => outer.Legible

def State.Legible : State → Prop
  | item scope _ | attrHash scope _ _ | attrBang scope _ _ _ | visibility scope _ _
  | restrictionOpen scope _ _ _ | restrictionName scope _ _ _ _ => Declared file scope.types
  | asyncWord decl _ | fnWord decl _ _ | constWord decl _ => Declared file decl.scope.types
  | paramHash place _ | param place | paramMut place _ | selfAmp place _ _ _ | receiver place _ =>
      Declared file place.types
  | attrOpen place | metaEquals place _ _ | metaContent place _ => place.Legible file
  | route place _ | routeMark place _ _ => place.Legible file
  | metaItem place | metaItemEquals place _ _ | metaItemDone place _ => place.attr.Legible file
  | fnName place | fnGenerics place _ => Declared file place.decl.scope.types
  | params place => Declared file place.types
  | bodyOpen place result _ => Declared file (place.types ++ (result.map (·.2)).toList)
  | constName place => Declared file place.decl.scope.types
  | constEquals place _ t _ | constValue place _ t _ _ =>
      Declared file (place.decl.scope.types ++ [t])
  | generic place | genericLifetime place _ | outlives place _ _ _ | outlived place _ _ _
  | genericType place _ | genericConst place _ | genericConstName place _ _ =>
      Declared file place.owner.types
  | component _ _ outer => outer.Legible file
  | componentMut place _ | pattern place _ => place.Legible file
  | type place => place.Legible file
  | typeDone place t => place.Legible file ∧ (TypeExpr.ofTree file t).Legible place.lead
  | arraySemicolon _ t _ outer => outer.Legible file ∧ (TypeExpr.ofTree file t).Legible .type
  | arrayLength _ t _ length outer =>
      outer.Legible file ∧ (TypeExpr.ofTree file t).Legible .type ∧
        (IsIdent length.text.toList ∨ IsNumber length.text.toList)
  | path front s place => place.Legible file ∧ (addSegment front s).Legible file place.lead
  | pathMark front _ place => place.Legible file ∧ front.Legible file place.lead
  | argLifetime place l outer =>
      outer.Legible file ∧ place.Legible file outer.lead ∧ IsLifetime l.text.toList
  | bound place => place.Legible file
  | boundLifetime place l => place.Legible file ∧ IsLifetime l.text.toList

end

section

variable {file : Option String} {lead : Lead}

theorem declared_append {as bs : List TypeTree} :
    Declared file (as ++ bs) ↔ Declared file as ∧ Declared file bs := by
  simp [Declared, or_imp, forall_and]

theorem declared_cons {t : TypeTree} {ts : List TypeTree} :
    Declared file (t :: ts) ↔ (TypeExpr.ofTree file t).Legible .type ∧ Declared file ts := by
  simp [Declared]

theorem declared_nil : Declared file [] := by
  simp [Declared]

theorem addType_legible {front : Option (TypeList × Lexeme .comma)} {t : TypeTree}
    (hfront : ∀ f ∈ front, f.1.Legible file) (ht : (TypeExpr.ofTree file t).Legible .type) :
    (addType front t).Legible file := by
  have hlast : ∀ a ∈ [TypeExpr.ofTree file t], a.Legible .type := by simpa using ht
  cases front with
  | none => exact hlast
  | some f => exact List.forall_mem_append.2 ⟨hfront f rfl, hlast⟩

theorem addArg_legible {front : Option (ArgList × Lexeme .comma)} {a : ArgTree}
    (hfront : ∀ f ∈ front, f.1.Legible file)
    (hargs : ∀ t ∈ TypeExpr.ofArg file a, t.Legible .type)
    (hlifetimes : ∀ l ∈ a.lifetimes, IsLifetime l.toList) : (addArg front a).Legible file := by
  cases front with
  | none => exact ⟨hargs, hlifetimes⟩
  | some f =>
    exact ⟨List.forall_mem_append.2 ⟨(hfront f rfl).args, hargs⟩,
      List.forall_mem_append.2 ⟨(hfront f rfl).lifetimes, hlifetimes⟩⟩

theorem addBound_legible {front : Option (BoundList × Lexeme .plus)} {b : BoundTree}
    (hfront : ∀ f ∈ front, f.1.Legible file)
    (hbounds : ∀ t ∈ TypeExpr.ofBound file b, t.Legible .bound)
    (hlifetimes : ∀ l ∈ b.lifetimes, IsLifetime l.toList) : (addBound front b).Legible file := by
  cases front with
  | none => exact ⟨hbounds, hlifetimes⟩
  | some f =>
    exact ⟨List.forall_mem_append.2 ⟨(hfront f rfl).bounds, hbounds⟩,
      List.forall_mem_append.2 ⟨(hfront f rfl).lifetimes, hlifetimes⟩⟩

theorem PathTree.names_ne_nil (p : PathTree) : p.names ≠ [] := by
  cases p <;> simp [names]

theorem PathTree.Legible.expr {p : PathTree} (h : p.Legible file lead) :
    (TypeExpr.ofTree file (.path p)).Legible lead :=
  .path p.names_ne_nil h.names h.lead h.lifetimes h.args

theorem PathTree.Legible.add {p : PathTree} (h : p.Legible file lead) (mark : Lexeme .colons)
    {l : Lexeme .ident} (hl : IsIdent l.text.toList) :
    (addSegment (some (p, mark)) (.plain l)).Legible file lead := by
  constructor
  · intro s hs
    rcases List.mem_append.1 hs with hs | hs
    · exact h.names s hs
    · obtain rfl := List.mem_singleton.1 hs
      exact hl
  · intro s hs
    obtain ⟨first, rest, hfirst⟩ := List.exists_cons_of_ne_nil p.names_ne_nil
    refine h.lead s ?_
    rw [addSegment, PathTree.names, hfirst] at hs
    rwa [hfirst]
  · simpa [addSegment, PathTree.lifetimes, SegmentTree.lifetimes] using h.lifetimes
  · simpa [addSegment, TypeExpr.argsOfPath, TypeExpr.argsOfSegment] using h.args

section

variable (front : Option (PathTree × Lexeme .colons)) (name : Lexeme .ident) (opens : Lexeme .less)
  (args : ArgList) (trailing : Option (Lexeme .comma)) (closes : Lexeme .greater)

theorem names_generic : (addSegment front (.generic name opens args trailing closes)).names =
    (addSegment front (.plain name)).names := by
  cases front <;> rfl

theorem lifetimes_generic :
    (addSegment front (.generic name opens args trailing closes)).lifetimes =
      (addSegment front (.plain name)).lifetimes ++ args.lifetimes := by
  cases front <;> simp [addSegment, PathTree.lifetimes, SegmentTree.lifetimes]

theorem argsOfPath_generic :
    TypeExpr.argsOfPath file (addSegment front (.generic name opens args trailing closes)) =
      TypeExpr.argsOfPath file (addSegment front (.plain name)) ++ TypeExpr.ofArgs file args := by
  cases front <;> simp [addSegment, TypeExpr.argsOfPath, TypeExpr.argsOfSegment]

end

theorem ArgPlace.Legible.finish {place : ArgPlace} (h : place.Legible file lead) {args : ArgList}
    (hargs : args.Legible file) (trailing : Option (Lexeme .comma)) (closes : Lexeme .greater) :
    (addSegment place.path (.generic place.name place.opens args trailing closes)).Legible file
      lead := by
  constructor
  · rw [names_generic]
    exact h.path.names
  · rw [names_generic]
    exact h.path.lead
  · rw [lifetimes_generic]
    exact List.forall_mem_append.2 ⟨h.path.lifetimes, hargs.lifetimes⟩
  · rw [argsOfPath_generic]
    exact List.forall_mem_append.2 ⟨h.path.args, hargs.args⟩

theorem BoundList.nonempty (bs : BoundList) :
    TypeExpr.ofBounds file bs ≠ [] ∨ bs.lifetimes ≠ [] := by
  have last (b : BoundTree) : TypeExpr.ofBound file b ≠ [] ∨ b.lifetimes ≠ [] := by
    cases b <;> simp [TypeExpr.ofBound, BoundTree.lifetimes]
  cases bs with
  | one b => exact last b
  | more front sep b =>
    exact (last b).imp (List.append_ne_nil_of_right_ne_nil _)
      (List.append_ne_nil_of_right_ne_nil _)

theorem TypePlace.lead_ne_bound (place : TypePlace) : place.lead ≠ .bound := by
  rw [lead.eq_def]
  split <;> decide

theorem PathTree.legible_name {l : Lexeme .ident} (hl : IsIdent l.text.toList)
    (hlead : ∀ k ∈ lead.words, ¬ k.Spells l.text.toList) :
    (addSegment none (.plain l)).Legible file lead := by
  constructor
  · intro s hs
    obtain rfl := List.mem_singleton.1 hs
    exact hl
  · rintro _ ⟨⟩
    exact hlead
  · simp [addSegment, PathTree.lifetimes, SegmentTree.lifetimes]
  · simp [addSegment, TypeExpr.argsOfPath, TypeExpr.argsOfSegment]

theorem TypePlace.words_subset (p : TypePlace) : p.lead.words ⊆ p.expects := by
  cases p with
  | target amp life mutable outer =>
    cases life <;> cases mutable <;> simp [lead, Lead.words, expects, typeStart]
  | subject place generics => cases generics <;> simp [lead, Lead.words, expects, typeStart]
  | arg place outer =>
    obtain ⟨path, name, opens, front⟩ := place
    cases front <;> simp [lead, Lead.words, expects, typeStart]
  | _ => simp [lead, Lead.words, expects, typeStart]

end

end Grammar

end NativeBinding
