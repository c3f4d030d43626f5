import NativeBinding.Grammar.State
import NativeBinding.Grammar.Tree

/-!
Braces and initializers among the tokens of a tree. Only blocks and bodies have braces, and each
closes what it opens; only constants have initializers, one each.
-/

namespace NativeBinding.Grammar

/-- The number of open braces after a terminal, unless it closes what is not open. -/
def Terminal.depthAfter : Terminal → Nat → Option Nat
  | lbrace, depth => some (depth + 1)
  | rbrace, 0 => none
  | rbrace, depth + 1 => some depth
  | _, depth => some depth

theorem Terminal.depthAfter_add {t : Terminal} {d e : Nat} (h : t.depthAfter d = some e) (k : Nat) :
    t.depthAfter (d + k) = some (e + k) := by
  cases t with
  | lbrace =>
    cases h
    exact congrArg some (Nat.add_right_comm d k 1)
  | rbrace =>
    cases d with
    | zero => cases h
    | succ d =>
      cases h
      rw [Nat.succ_add]
      rfl
  | _ =>
    cases h
    rfl

theorem Terminal.eq_of_depthAfter_eq_none {t : Terminal} {d : Nat} (h : t.depthAfter d = none) :
    t = .rbrace ∧ d = 0 := by
  cases t with
  | rbrace =>
    cases d with
    | zero => exact ⟨rfl, rfl⟩
    | succ d => cases h
  | _ => cases h

def nesting : Nat → List Token → Option Nat
  | depth, [] => some depth
  | depth, t :: ts => (t.kind.depthAfter depth).bind (nesting · ts)

theorem nesting_append (d : Nat) (as bs : List Token) :
    nesting d (as ++ bs) = (nesting d as).bind (nesting · bs) := by
  induction as generalizing d with
  | nil => rfl
  | cons a as ih =>
    rw [List.cons_append, nesting, nesting, Option.bind_assoc]
    congr 1
    funext e
    exact ih e

/-- Neither braces nor initializers. -/
def Inline (ts : List Token) : Prop :=
  ∀ t ∈ ts, t.kind ≠ .lbrace ∧ t.kind ≠ .rbrace ∧ t.kind ≠ .initializer

theorem Inline.nesting {ts : List Token} (h : Inline ts) (d : Nat) :
    nesting d ts = some d := by
  induction ts with
  | nil => rfl
  | cons t ts ih =>
    obtain ⟨hopen, hclose, -⟩ := h t List.mem_cons_self
    have ht : t.kind.depthAfter d = some d := by
      rw [Terminal.depthAfter.eq_def]
      split <;> simp_all
    rw [Grammar.nesting, ht]
    exact ih fun u hu => h u (List.mem_cons_of_mem _ hu)

@[simp] theorem inline_nil : Inline [] := by
  simp [Inline]

@[simp] theorem inline_append {as bs : List Token} :
    Inline (as ++ bs) ↔ Inline as ∧ Inline bs :=
  List.forall_mem_append

@[simp] theorem inline_cons {t : Token} {ts : List Token} :
    Inline (t :: ts) ↔
      (t.kind ≠ .lbrace ∧ t.kind ≠ .rbrace ∧ t.kind ≠ .initializer) ∧ Inline ts :=
  List.forall_mem_cons

@[simp] theorem inline_token {k : Terminal} {l : Lexeme k} :
    Inline l.token ↔ k ≠ .lbrace ∧ k ≠ .rbrace ∧ k ≠ .initializer := by
  simp [Lexeme.token]

theorem inline_optional {α : Type} {f : α → List Token} (hf : ∀ a, Inline (f a))
    (o : Option α) : Inline (optional f o) := by
  cases o with
  | none => exact inline_nil
  | some a => exact hf a

theorem inline_lexeme {k : Terminal} (hk : k ≠ .lbrace ∧ k ≠ .rbrace ∧ k ≠ .initializer)
    (o : Option (Lexeme k)) : Inline (optional Lexeme.token o) :=
  inline_optional (fun _ => inline_token.2 hk) o

theorem inline_flatMap {α : Type} {f : α → List Token} (hf : ∀ a, Inline (f a))
    (as : List α) : Inline (as.flatMap f) := by
  induction as with
  | nil => exact inline_nil
  | cons a as ih => exact inline_append.2 ⟨hf a, ih⟩

section

variable {mark : Terminal} {α : Type} {f : α → List Token}

theorem Chain.inline (c : Chain mark α)
    (hmark : mark ≠ .lbrace ∧ mark ≠ .rbrace ∧ mark ≠ .initializer)
    (hf : ∀ a, Inline (f a)) : Inline (c.tokens f) := by
  induction c with
  | one a => exact hf a
  | more front sep a ih => exact inline_append.2 ⟨ih, inline_cons.2 ⟨hmark, hf a⟩⟩

theorem Series.inline (hf : ∀ a, Inline (f a)) (s : Series α) : Inline (s.tokens f) := by
  have hitems : Inline (s.items.tokens f) := s.items.inline (by decide) hf
  simp [Series.tokens, hitems, inline_lexeme]

theorem Group.inline (hf : ∀ a, Inline (f a)) (g : Group α) : Inline (g.tokens f) := by
  simp [Group.tokens, inline_optional (Series.inline hf)]

end

theorem Route.inline (r : Route) : Inline r.tokens :=
  Chain.inline r (by decide) fun _ => by simp

theorem Literal.inline (l : Literal) : Inline l.tokens := by
  cases l <;> simp [Literal.tokens]

theorem MetaItem.inline (m : MetaItem) : Inline m.tokens := by
  cases m <;> simp [MetaItem.tokens, Route.inline, Literal.inline]

theorem Meta.inline (m : Meta) : Inline m.tokens := by
  cases m <;>
    simp [Meta.tokens, Route.inline, Literal.inline, Group.inline MetaItem.inline]

theorem AttrTree.inline (a : AttrTree) : Inline a.tokens := by
  cases a <;> simp [AttrTree.tokens, Meta.inline, inline_lexeme]

theorem ParamAttrTree.inline (a : ParamAttrTree) : Inline a.tokens := by
  simp [ParamAttrTree.tokens, Meta.inline]

theorem ObjectWord.inline (w : ObjectWord) : Inline w.tokens := by
  cases w <;> simp [ObjectWord.tokens]

theorem ArrayLength.inline (n : ArrayLength) : Inline n.tokens := by
  cases n <;> simp [ArrayLength.tokens]

mutual

theorem TypeTree.inline (t : TypeTree) : Inline t.tokens := by
  cases t with
  | path p => exact p.inline
  | ref amp life mutable target =>
    simp [TypeTree.tokens, inline_lexeme, TypeTree.inline target]
  | unit opens closes => simp [TypeTree.tokens]
  | tuple opens items trailing closes =>
    simp [TypeTree.tokens, inline_lexeme, TypeList.inline items]
  | slice opens item closes => simp [TypeTree.tokens, TypeTree.inline item]
  | array opens item semi length closes =>
    simp [TypeTree.tokens, TypeTree.inline item, ArrayLength.inline]
  | object word bounds => simp [TypeTree.tokens, ObjectWord.inline, BoundList.inline bounds]
  | inferred l => simp [TypeTree.tokens]

theorem TypeList.inline (ts : TypeList) : Inline ts.tokens := by
  cases ts with
  | one t => exact t.inline
  | more front sep t => simp [TypeList.tokens, TypeList.inline front, TypeTree.inline t]

theorem PathTree.inline (p : PathTree) : Inline p.tokens := by
  cases p with
  | one s => exact s.inline
  | more front sep s => simp [PathTree.tokens, PathTree.inline front, SegmentTree.inline s]

theorem SegmentTree.inline (s : SegmentTree) : Inline s.tokens := by
  cases s with
  | plain name => simp [SegmentTree.tokens]
  | generic name opens args trailing closes =>
    simp [SegmentTree.tokens, inline_lexeme, ArgList.inline args]

theorem ArgList.inline (as : ArgList) : Inline as.tokens := by
  cases as with
  | one a => exact a.inline
  | more front sep a => simp [ArgList.tokens, ArgList.inline front, ArgTree.inline a]

theorem ArgTree.inline (a : ArgTree) : Inline a.tokens := by
  cases a with
  | type t => exact t.inline
  | lifetime l => simp [ArgTree.tokens]

theorem BoundList.inline (bs : BoundList) : Inline bs.tokens := by
  cases bs with
  | one b => exact b.inline
  | more front sep b => simp [BoundList.tokens, BoundList.inline front, BoundTree.inline b]

theorem BoundTree.inline (b : BoundTree) : Inline b.tokens := by
  cases b with
  | path p => exact p.inline
  | lifetime l => simp [BoundTree.tokens]

end

theorem GenericTree.inline (g : GenericTree) : Inline g.tokens := by
  cases g with
  | lifetime name bounds =>
    cases bounds with
    | none => simp [GenericTree.tokens, optional]
    | some b =>
      have hchain : Inline (b.2.tokens Lexeme.token) := b.2.inline (by decide) fun _ => by simp
      simp [GenericTree.tokens, optional, hchain]
  | type name bounds =>
    cases bounds <;> simp [GenericTree.tokens, optional, BoundList.inline]
  | const word name colon type => simp [GenericTree.tokens, TypeTree.inline]

theorem GenericsTree.inline (g : GenericsTree) : Inline g.tokens := by
  simp [GenericsTree.tokens, Series.inline GenericTree.inline]

mutual

theorem PatternTree.inline (p : PatternTree) : Inline p.tokens := by
  cases p with
  | name mutable name => simp [PatternTree.tokens, inline_lexeme]
  | wildcard l => simp [PatternTree.tokens]
  | unit opens closes => simp [PatternTree.tokens]
  | tuple opens items trailing closes =>
    simp [PatternTree.tokens, inline_lexeme, PatternList.inline items]

theorem PatternList.inline (ps : PatternList) : Inline ps.tokens := by
  cases ps with
  | one p => exact p.inline
  | more front sep p =>
    simp [PatternList.tokens, PatternList.inline front, PatternTree.inline p]

end

theorem ParamTree.inline (p : ParamTree) : Inline p.tokens := by
  have hbody : Inline p.body.tokens := by
    cases p.body with
    | receiver s => cases s <;> simp [ParamBody.tokens, SelfTree.tokens, inline_lexeme]
    | typed pattern colon type =>
      simp [ParamBody.tokens, PatternTree.inline, TypeTree.inline]
  exact inline_append.2 ⟨inline_flatMap ParamAttrTree.inline _, hbody⟩

theorem Visibility.inline (v : Visibility) : Inline v.tokens := by
  obtain ⟨word, _ | r⟩ := v <;> simp [Visibility.tokens, optional]

/-- Whatever is open before the tokens is open after them, and nothing else. -/
def Balanced (ts : List Token) : Prop :=
  ∀ d, nesting d ts = some d

theorem Balanced.append {as bs : List Token} (ha : Balanced as) (hb : Balanced bs) :
    Balanced (as ++ bs) := by
  intro d
  rw [nesting_append, ha]
  exact hb d

theorem Balanced.flatMap {α : Type} {f : α → List Token} (hf : ∀ a, Balanced (f a))
    (as : List α) : Balanced (as.flatMap f) := by
  induction as with
  | nil => exact fun _ => rfl
  | cons a as ih => exact (hf a).append ih

theorem Inline.balanced {ts : List Token} (h : Inline ts) : Balanced ts :=
  h.nesting

theorem Balanced.enclosed {ts : List Token} (h : Balanced ts) (opens : Lexeme .lbrace)
    (closes : Lexeme .rbrace) : Balanced (opens.token ++ ts ++ closes.token) := by
  intro d
  rw [nesting_append, nesting_append]
  change ((nesting (d + 1) ts).bind _) = _
  rw [h]
  rfl

def FnTree.signature (f : FnTree) : List Token :=
  optional Visibility.tokens f.visibility ++ optional Lexeme.token f.asynchronous ++
    f.word.token ++ f.name.token ++ optional GenericsTree.tokens f.generics ++
    f.params.tokens ParamTree.tokens ++ optional (fun r => r.1.token ++ r.2.tokens) f.result

theorem FnTree.inline_signature (f : FnTree) : Inline f.signature := by
  simp [signature, inline_optional Visibility.inline, inline_optional GenericsTree.inline,
    inline_lexeme, Group.inline ParamTree.inline]
  exact inline_optional (fun r => by simp [TypeTree.inline]) _

def ConstTree.declared (c : ConstTree) : List Token :=
  optional Visibility.tokens c.visibility ++ c.word.token ++ c.name.token ++ c.colon.token ++
    c.type.tokens ++ c.eq.token

theorem ConstTree.inline_declared (c : ConstTree) : Inline c.declared := by
  simp [declared, inline_optional Visibility.inline, TypeTree.inline]

def BlockTree.heading (b : BlockTree) : List Token :=
  b.head.word.token ++ optional GenericsTree.tokens b.head.generics ++ b.head.subject.tokens

theorem BlockTree.inline_heading (b : BlockTree) : Inline b.heading := by
  simp [heading, inline_optional GenericsTree.inline, TypeTree.inline]

theorem BlockTree.tokens_eq (b : BlockTree) : b.tokens = b.heading ++
    (b.head.opens.token ++ b.members.flatMap MemberTree.tokens ++ b.closes.token) := by
  simp [BlockTree.tokens, BlockHead.tokens, heading]

theorem MemberBody.balanced (m : MemberBody) : Balanced m.tokens := by
  cases m with
  | fn f =>
    refine f.inline_signature.balanced.append ?_
    cases f.ending with
    | semicolon l => exact Inline.balanced (by simp [FnEnd.tokens])
    | block opens closes => exact inline_nil.balanced.enclosed opens closes
  | const c =>
    have hvalue : Balanced c.value.token := fun _ => rfl
    have hsemi : Inline c.semi.token := by simp
    exact (c.inline_declared.balanced.append hvalue).append hsemi.balanced

theorem ItemTree.balanced (i : ItemTree) : Balanced i.tokens := by
  have hattrs (as : List AttrTree) : Balanced (as.flatMap AttrTree.tokens) :=
    (inline_flatMap AttrTree.inline as).balanced
  refine (hattrs i.attrs).append ?_
  cases i.body with
  | member m => exact m.balanced
  | block b =>
    have hmembers : Balanced (b.members.flatMap MemberTree.tokens) :=
      Balanced.flatMap (fun m : MemberTree => (hattrs m.attrs).append m.body.balanced) _
    rw [ItemBody.tokens, b.tokens_eq]
    exact b.inline_heading.balanced.append (hmembers.enclosed b.head.opens b.closes)

section

variable {l : Lexeme .initializer}

theorem Inline.not_mem {ts : List Token} (h : Inline ts) : ⟨.initializer, l⟩ ∉ ts :=
  fun hl => (h _ hl).2.2 rfl

theorem FnTree.not_mem (f : FnTree) : ⟨.initializer, l⟩ ∉ f.tokens := by
  have hsplit : f.tokens = f.signature ++ f.ending.tokens := rfl
  rw [hsplit, List.mem_append, not_or]
  refine ⟨f.inline_signature.not_mem, ?_⟩
  cases f.ending <;> simp [FnEnd.tokens, Lexeme.token]

theorem ConstTree.eq_value {c : ConstTree} (h : ⟨.initializer, l⟩ ∈ c.tokens) : l = c.value := by
  have hsplit : c.tokens = c.declared ++ c.value.token ++ c.semi.token := rfl
  simpa [hsplit, c.inline_declared.not_mem, Lexeme.token] using h

end

end NativeBinding.Grammar
