import NativeBinding.Decl.OfTree
import NativeBinding.Proofs.Except
import NativeBinding.Proofs.Grammar.Derivation

/-!
Literals without a value. Of all the parts of a text only literals in attributes may fail to declare
something: a string with an escape that is none, an integer with too many digits. What a file is
reported for is the first such literal in the order of its derivation.
-/

namespace NativeBinding

open Grammar (Derivation Forest Nonterminal Token)

namespace Grammar

def Nonterminal.holdsLiterals : Nonterminal → Bool
  | start | item | itemBody | attrs | outerAttr | attrMeta | metaArgs | metaArg | lit | fnDef
  | implDef | implMember | params | param | paramAttrs | paramAttr => true
  | _ => false

theorem Nonterminal.free_literals {n : Nonterminal} (h : n.holdsLiterals = false) :
    Free holdsLiterals n.rule := by
  cases n <;> simp only [reduceCtorEq, holdsLiterals] at h
  all_goals
    rw [rule]
    repeat' first
      | exact Free.lex _
      | exact Free.sub rfl
      | apply Free.maybe
      | apply Free.series
      | apply Free.separated
      | apply Free.star
      | apply Free.add
      | apply Free.mul

namespace Derivation

mutual

/-- The literals at and below a node, in the order of the text. -/
def literals : Derivation → List Token
  | .lexeme _ => []
  | .node n ds => if n = .lit then tokensAll ds else literalsAll ds

def literalsAll : List Derivation → List Token
  | [] => []
  | d :: ds => literals d ++ literalsAll ds

end

@[simp] theorem literalsAll_append (as bs : List Derivation) :
    literalsAll (as ++ bs) = literalsAll as ++ literalsAll bs := by
  induction as with
  | nil => rfl
  | cons a as ih => rw [List.cons_append, literalsAll, ih, literalsAll, List.append_assoc]

@[simp] theorem literalsAll_part {kind : Terminal} (l : Lexeme kind) : literalsAll l.part = [] :=
  rfl

@[simp] theorem literalsAll_node (n : Nonterminal) (ds : List Derivation) :
    literalsAll (Grammar.node n ds) = if n = .lit then tokensAll ds else literalsAll ds := by
  rw [Grammar.node, literalsAll, literals, literalsAll, List.append_nil]

theorem literalsAll_eq_nil {ds : List Derivation} (h : ∀ d ∈ ds, d.literals = []) :
    literalsAll ds = [] := by
  induction ds with
  | nil => rfl
  | cons d ds ih =>
    rw [List.forall_mem_cons] at h
    rw [literalsAll, h.1, ih h.2, List.append_nil]

theorem literals_eq_nil {d : Derivation} (hvalid : d.Valid)
    (hfree : ∀ n, d.symbol = .nonterminal n → n.holdsLiterals = false) : d.literals = [] := by
  induction hvalid with
  | lexeme t => rfl
  | @node n parts hrule _ ih =>
    have hn := hfree n rfl
    have hparts := Nonterminal.free_literals hn _ hrule
    have hlit : n ≠ .lit := by
      rintro rfl
      cases hn
    rw [literals, if_neg hlit]
    refine literalsAll_eq_nil fun d hd => ih d hd fun m hm => hparts m ?_
    rw [← hm]
    exact List.mem_map_of_mem hd

theorem literalsAll_of_free {l : Form} {ds : List Derivation} (h : Forest l ds)
    (hl : Free Nonterminal.holdsLiterals l) : literalsAll ds = [] :=
  literalsAll_eq_nil fun d hd => literals_eq_nil (h.valid d hd) fun n hn =>
    hl _ h.symbols n (hn ▸ List.mem_map_of_mem hd)

end Derivation

def unsigned : List Char → List Char
  | '-' :: cs => cs
  | cs => cs

def Token.badLiteral? (file : Option String) (t : Token) : Option BadLiteral :=
  match t.kind with
  | .string =>
      (error? (Escape.decode (unquote t.text))).map (.escape · (.between file t.start t.stop))
  | .number =>
      if '.' ∉ t.text.toList ∧ Number.maxDigits < (unsigned t.text.toList).length then
        some (.oversized ⟨(unsigned t.text.toList).length⟩)
      else none
  | _ => none

def firstBad? (file : Option String) (ds : List Derivation) : Option BadLiteral :=
  (Derivation.literalsAll ds).findSome? (Token.badLiteral? file)

section

open NativeBinding.Grammar.Derivation (literalsAll tokensAll)

variable {file : Option String}

@[simp] theorem firstBad?_nil : firstBad? file [] = none :=
  rfl

@[simp] theorem firstBad?_append (as bs : List Derivation) :
    firstBad? file (as ++ bs) = (firstBad? file as).or (firstBad? file bs) := by
  rw [firstBad?, Derivation.literalsAll_append, List.findSome?_append]
  rfl

@[simp] theorem firstBad?_part {kind : Terminal} (l : Lexeme kind) :
    firstBad? file l.part = none :=
  rfl

@[simp] theorem firstBad?_node (n : Nonterminal) (ds : List Derivation) :
    firstBad? file (node n ds) =
      if n = .lit then (tokensAll ds).findSome? (Token.badLiteral? file)
      else firstBad? file ds := by
  rw [firstBad?, Derivation.literalsAll_node]
  split <;> rfl

theorem firstBad?_literal {kind : Terminal} (l : Lexeme kind) :
    firstBad? file (node .lit l.part) = Token.badLiteral? file ⟨kind, l⟩ := by
  rw [firstBad?_node, if_pos rfl, Lexeme.part, tokensAll, Derivation.tokens, tokensAll,
    List.singleton_append, List.findSome?_singleton]

theorem firstBad?_flatMap {α : Type} (f : α → List Derivation) (as : List α) :
    firstBad? file (as.flatMap f) = as.findSome? fun a => firstBad? file (f a) := by
  induction as with
  | nil => rfl
  | cons a as ih =>
    rw [List.flatMap_cons, firstBad?_append, ih, List.findSome?_cons]
    cases firstBad? file (f a) <;> rfl

theorem firstBad?_of_free {l : Form} {ds : List Derivation} (h : Forest l ds)
    (hl : Free Nonterminal.holdsLiterals l) : firstBad? file ds = none := by
  rw [firstBad?, Derivation.literalsAll_of_free h hl]
  rfl

theorem firstBad?_chain {mark : Terminal} {α : Type} (f : α → List Derivation)
    (c : Chain mark α) :
    firstBad? file (c.parts f) = c.toList.findSome? fun a => firstBad? file (f a) := by
  induction c with
  | one a => simp [Chain.parts, Chain.toList]
  | more front sep a ih => simp [Chain.parts, Chain.toList, ih]

@[simp] theorem firstBad?_maybePart {kind : Terminal} (o : Option (Lexeme kind)) :
    firstBad? file (maybeParts Lexeme.part o) = none := by
  cases o <;> rfl

theorem firstBad?_maybe {α : Type} {l : Form} {f : α → List Derivation}
    (h : ∀ a, Forest l (f a)) (hl : Free Nonterminal.holdsLiterals l) (o : Option α) :
    firstBad? file (maybeParts f o) = none :=
  firstBad?_of_free (forest_maybe h o) hl.maybe

@[simp] theorem firstBad?_series {α : Type} (f : α → List Derivation) (s : Series α) :
    firstBad? file (s.parts f) = s.toList.findSome? fun a => firstBad? file (f a) := by
  rw [Series.parts, firstBad?_append, firstBad?_chain, firstBad?_maybePart, Option.or_none]
  rfl

theorem firstBad?_group {α : Type} {n : Nonterminal} (hn : n ≠ .lit) (f : α → List Derivation)
    (g : Group α) : firstBad? file (maybeParts (fun s => node n (s.parts f)) g.items) =
      g.toList.findSome? fun a => firstBad? file (f a) := by
  rw [Group.toList]
  cases g.items with
  | none => rfl
  | some s => rw [maybeParts, firstBad?_node, if_neg hn, firstBad?_series]; rfl

end

end Grammar

open Grammar (firstBad?)

variable {file : Option String}

theorem Number.error?_intOfDigits (cs : List Char) :
    error? (intOfDigits cs) =
      if maxDigits < (Grammar.unsigned cs).length then some ⟨(Grammar.unsigned cs).length⟩
      else none := by
  have natural (ds : List Char) : error? (natOfDigits ds) =
      if maxDigits < ds.length then some ⟨ds.length⟩ else none := by
    rw [natOfDigits]
    by_cases h : ds.length ≤ maxDigits
    · rw [if_pos h, if_neg (Nat.not_lt.2 h), error?_ok]
    · rw [if_neg h, if_pos (Nat.not_le.1 h), error?_error]
  rw [intOfDigits.eq_def]
  split
  · next ds =>
    refine Eq.trans ?_ (natural ds)
    cases natOfDigits ds <;> rfl
  · next hsign =>
    have hunsigned : Grammar.unsigned cs = cs := by
      rw [Grammar.unsigned.eq_def]
      split
      · next ds => exact absurd rfl (hsign ds)
      · rfl
    rw [hunsigned, ← natural cs]
    cases natOfDigits cs <;> rfl

theorem Literal.error?_ofTree (l : Grammar.Literal) :
    error? (Literal.ofTree file l) = firstBad? file (Grammar.node .lit l.parts) := by
  cases l with
  | string l =>
    rw [Literal.ofTree, Grammar.Literal.parts, Grammar.firstBad?_literal]
    change _ = (error? (Escape.decode (unquote l.text))).map _
    cases Escape.decode (unquote l.text) <;> rfl
  | number l =>
    rw [Literal.ofTree, Grammar.Literal.parts, Grammar.firstBad?_literal]
    change _ = if '.' ∉ l.text.toList ∧ Number.maxDigits < (Grammar.unsigned l.text.toList).length
      then some (BadLiteral.oversized ⟨(Grammar.unsigned l.text.toList).length⟩) else none
    by_cases hpoint : '.' ∈ l.text.toList
    · simp [hpoint]
    · have herror := Number.error?_intOfDigits l.text.toList
      simp only [List.contains_iff_mem, hpoint, if_false, not_false_iff, true_and]
      split_ifs at herror ⊢ with hlong
      · rw [error?_eq_some_iff.1 herror, error?_error]
      · obtain ⟨n, hn⟩ := error?_eq_none_iff.1 herror
        rw [hn, error?_ok]
  | yes l => rfl
  | no l => rfl

theorem firstBad?_route (r : Grammar.Route) :
    firstBad? file (Grammar.node .attrPath r.parts) = none :=
  Grammar.firstBad?_of_free (Grammar.forest_node r.forest) (Grammar.Free.sub rfl)

theorem AttrArg.error?_ofTree (t : Grammar.MetaItem) :
    error? (AttrArg.ofTree file t) = firstBad? file t.parts := by
  cases t with
  | route r => exact (firstBad?_route r).symm
  | assign r eq value =>
    rw [Grammar.MetaItem.parts, Grammar.firstBad?_append, Grammar.firstBad?_append, firstBad?_route,
      ← Literal.error?_ofTree]
    exact error?_map ..
  | literal value =>
    rw [Grammar.MetaItem.parts, ← Literal.error?_ofTree]
    exact error?_map ..

theorem Attribute.error?_ofMeta (inner : Bool) (span : Span) (m : Grammar.Meta) :
    error? (Attribute.ofMeta file inner span m) =
      firstBad? file (Grammar.node .attrMeta m.parts) := by
  rw [Grammar.firstBad?_node, if_neg (by decide)]
  cases m with
  | word r => exact (firstBad?_route r).symm
  | list r items =>
    have hitems : error? (items.toList.mapM (AttrArg.ofTree file)) =
        items.toList.findSome? fun i => firstBad? file (Grammar.node .metaArg i.parts) := by
      rw [error?_mapM]
      congr 1
      funext i
      rw [AttrArg.error?_ofTree, Grammar.firstBad?_node, if_neg (by decide)]
    rw [Grammar.Meta.parts, Grammar.firstBad?_append, Grammar.firstBad?_append,
      Grammar.firstBad?_append, firstBad?_route, Grammar.firstBad?_part, Grammar.firstBad?_part,
      Grammar.firstBad?_group (by decide), ← hitems, Option.none_or, Option.none_or, Option.or_none]
    exact error?_map ..
  | value r eq value =>
    rw [Grammar.Meta.parts, Grammar.firstBad?_append, Grammar.firstBad?_append, firstBad?_route,
      ← Literal.error?_ofTree]
    exact error?_map ..

theorem Attribute.error?_ofTree (t : Grammar.AttrTree) :
    error? (Attribute.ofTree file t) = firstBad? file t.parts := by
  cases t with
  | doc l => rfl
  | written hash bang opens content closes =>
    rw [Attribute.ofTree, error?_ofMeta]
    simp [Grammar.AttrTree.parts]

theorem Attribute.error?_ofParam (t : Grammar.ParamAttrTree) :
    error? (Attribute.ofParam file t) = firstBad? file t.parts := by
  rw [Attribute.ofParam, error?_ofMeta]
  simp [Grammar.ParamAttrTree.parts]

theorem Param.error?_ofTree (t : Grammar.ParamTree) :
    error? (Param.ofTree file t) = firstBad? file t.parts := by
  have hbody : firstBad? file t.body.parts = none :=
    Grammar.firstBad?_of_free t.body.forest ((Grammar.Free.sub rfl).add (Grammar.Free.sub rfl))
  rw [Param.ofTree, error?_bind fun attrs => error?_pure _, error?_mapM]
  simp [Grammar.ParamTree.parts, hbody, Grammar.firstBad?_flatMap, Attribute.error?_ofParam]

theorem firstBad?_generics (file : Option String) (g : Option Grammar.GenericsTree) :
    firstBad? file (Grammar.maybeParts (fun g => Grammar.node .generics g.parts) g) = none :=
  Grammar.firstBad?_maybe (fun g => Grammar.forest_node g.forest) (Grammar.Free.sub rfl) g

theorem FnDecl.error?_ofTree (block : Option ImplHeader) (attrs : List Attribute)
    (t : Grammar.FnTree) : error? (FnDecl.ofTree file block attrs t) = firstBad? file t.parts := by
  have hvisibility : firstBad? file (Grammar.maybeParts (fun v => Grammar.node .visibility v.parts)
      t.visibility) = none :=
    Grammar.firstBad?_maybe (fun v => Grammar.forest_node v.forest) (Grammar.Free.sub rfl) _
  have hgenerics := firstBad?_generics file t.generics
  have hresult : firstBad? file (Grammar.maybeParts (fun r : Grammar.Lexeme .arrow ×
      Grammar.TypeTree => Grammar.node .retType (r.1.part ++ Grammar.node .type r.2.parts))
      t.result) = none :=
    Grammar.firstBad?_maybe (fun r => Grammar.forest_node
      (r.1.forest.append (Grammar.forest_node r.2.forest))) (Grammar.Free.sub rfl) _
  have hending : firstBad? file t.ending.parts = none :=
    Grammar.firstBad?_of_free t.ending.forest ((Grammar.Free.lex _).add (Grammar.Free.sub rfl))
  have hparams : firstBad? file (Grammar.maybeParts (fun s => Grammar.node .params
      (s.parts fun p => Grammar.node .param p.parts)) t.params.items) =
      t.params.toList.findSome? fun p => firstBad? file (Grammar.node .param p.parts) :=
    Grammar.firstBad?_group (by decide) _ _
  rw [FnDecl.ofTree, error?_bind fun params => error?_pure _, error?_mapM]
  simp [Grammar.FnTree.parts, hvisibility, hgenerics, hresult, hending, hparams,
    Param.error?_ofTree]

theorem ConstDecl.firstBad?_parts (t : Grammar.ConstTree) : firstBad? file t.parts = none :=
  Grammar.firstBad?_of_free t.forest (Nonterminal.free_literals rfl)

theorem firstBad?_attrs (attrs : List Grammar.AttrTree) :
    firstBad? file (Grammar.node .attrs (attrs.flatMap fun a => Grammar.node .outerAttr a.parts)) =
      error? (attrs.mapM (Attribute.ofTree file)) := by
  rw [error?_mapM]
  simp [Grammar.firstBad?_flatMap, Attribute.error?_ofTree]

theorem Decl.error?_ofTree (block : Option ImplHeader) (attrs : List Grammar.AttrTree)
    (t : Grammar.MemberBody) : error? (Decl.ofTree file block attrs t) =
      firstBad? file (Grammar.node .attrs (attrs.flatMap fun a => Grammar.node .outerAttr a.parts)
        ++ t.parts) := by
  rw [Grammar.firstBad?_append, firstBad?_attrs, Decl.ofTree]
  cases t with
  | fn f =>
    refine error?_bind fun as => ?_
    rw [error?_bind fun d => error?_pure _, FnDecl.error?_ofTree]
    simp [Grammar.MemberBody.parts]
  | const c =>
    refine error?_bind fun as => ?_
    simp [Grammar.MemberBody.parts, ConstDecl.firstBad?_parts]

theorem SourceItem.error?_ofTree (t : Grammar.ItemTree) :
    error? (SourceItem.ofTree file t) = firstBad? file t.parts := by
  rw [SourceItem.ofTree, Grammar.ItemTree.parts, Grammar.firstBad?_append]
  cases t.body with
  | member m =>
    rw [error?_bind fun d => error?_pure _, Decl.error?_ofTree]
    simp [Grammar.ItemBody.parts]
  | block b =>
    have hgenerics := firstBad?_generics file b.head.generics
    have hsubject : firstBad? file (Grammar.node .type b.head.subject.parts) = none :=
      Grammar.firstBad?_of_free (Grammar.forest_node b.head.subject.forest) (Grammar.Free.sub rfl)
    rw [firstBad?_attrs]
    refine error?_bind fun as => ?_
    rw [error?_bind fun ms => error?_pure _, error?_mapM]
    rw [Grammar.ItemBody.parts]
    simp [Grammar.BlockTree.parts, Grammar.MemberTree.parts, hgenerics, hsubject,
      Grammar.firstBad?_flatMap, Decl.error?_ofTree]

/-- A file is reported for the first of its literals without a value. -/
theorem SourceFile.error?_ofTrees (file : Option String) (items : List Grammar.ItemTree) :
    error? (SourceFile.ofTrees file items) =
      (Grammar.fileNode items).literals.findSome? (Grammar.Token.badLiteral? file) := by
  have hitems : error? (items.mapM (SourceItem.ofTree file)) =
      firstBad? file (items.flatMap fun i => Grammar.node .item i.parts) := by
    rw [error?_mapM, Grammar.firstBad?_flatMap]
    simp [SourceItem.error?_ofTree]
  rw [SourceFile.ofTrees, error?_bind fun is => error?_pure _, hitems, Option.or_none]
  rfl

end NativeBinding
