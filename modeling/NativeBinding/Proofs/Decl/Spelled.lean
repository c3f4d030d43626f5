import NativeBinding.Decl.OfTree
import NativeBinding.Proofs.Except
import NativeBinding.Proofs.Grammar.Derivation

/-!
What a derivation spells. Everything that a declaration holds is found below its node by the names
of nodes and the kinds of lexemes, whatever stands between them. A site is a node of a function or a
constant with the attributes before it and the block around it, and the sites of a derivation are in
the order of the text.
-/

namespace NativeBinding

open Grammar (Derivation Nonterminal Terminal Token)
open Grammar.Derivation (tokensAll)

namespace Grammar

def lexemesOf (k : Terminal) (ds : List Derivation) : List Token :=
  ds.filterMap fun
    | .lexeme t => if t.kind = k then some t else none
    | .node _ _ => none

def nodesOf (n : Nonterminal) (ds : List Derivation) : List (List Derivation) :=
  ds.filterMap fun
    | .lexeme _ => none
    | .node m parts => if m = n then some parts else none

def hasLexeme (k : Terminal) (ds : List Derivation) : Bool :=
  !(lexemesOf k ds).isEmpty

end Grammar

namespace Spelled

open Grammar (lexemesOf nodesOf hasLexeme)

variable (file : Option String)

def span (ds : List Derivation) : Span :=
  Grammar.spanOf file (tokensAll ds)

def spanAt (t : Token) : Span :=
  .between file t.start t.stop

def path (ds : List Derivation) : AttrPath :=
  ⟨(lexemesOf .ident ds).map Token.text, span file ds⟩

def literalAt? (t : Token) : Option Literal :=
  match t.kind with
  | .string =>
      (Escape.decode (unquote t.text)).toOption.map fun cs =>
        ⟨.str (String.ofList cs), spanAt file t⟩
  | .number =>
      if t.text.toList.contains '.' then some ⟨.float (.ofPointed t.text.toList), spanAt file t⟩
      else (Number.intOfDigits t.text.toList).toOption.map fun n => ⟨.int n, spanAt file t⟩
  | .trueWord => some ⟨.bool true, spanAt file t⟩
  | .falseWord => some ⟨.bool false, spanAt file t⟩
  | _ => none

def literal? : List Derivation → Option Literal
  | [.lexeme t] => literalAt? file t
  | _ => none

def arg? (ds : List Derivation) : Option AttrArg :=
  match nodesOf .attrPath ds, nodesOf .lit ds with
  | [p], [] => some (.path (path file p))
  | [p], [l] => (literal? file l).map fun value => .assign (path file p) value (span file ds)
  | [], [l] => (literal? file l).map .literal
  | _, _ => none

def form? (ds : List Derivation) : Option AttrForm :=
  match nodesOf .lit ds with
  | l :: _ => (literal? file l).map .value
  | [] =>
      if hasLexeme .lparen ds then
        (((nodesOf .metaArgs ds).flatMap (nodesOf .metaArg)).mapM (arg? file)).map .list
      else some .word

def attribute? (ds : List Derivation) : Option Attribute :=
  match nodesOf .attrMeta ds, lexemesOf .docComment ds with
  | content :: _, _ => do
      let p ← (nodesOf .attrPath content).head?
      let form ← form? file content
      return ⟨path file p, form, hasLexeme .bang ds, span file ds⟩
  | [], t :: _ =>
      let text := String.ofList (t.text.toList.drop 3)
      some ⟨⟨["doc"], spanAt file t⟩, .value ⟨.str text, spanAt file t⟩, false, spanAt file t⟩
  | [], [] => none

def segments (ds : List Derivation) : List String :=
  ((nodesOf .pathSeg ds).flatMap (lexemesOf .ident)).map Token.text

/-- The lifetimes among the arguments of a path. -/
def pathLifetimes (ds : List Derivation) : List String :=
  ((((nodesOf .pathSeg ds).flatMap (nodesOf .genericArgs)).flatMap (nodesOf .genericArg)).flatMap
    (lexemesOf .lifetime)).map Token.text

def boundLifetimes (ds : List Derivation) : List String :=
  ((nodesOf .typeBound ds).flatMap (lexemesOf .lifetime)).map Token.text

mutual

/-- The outermost types at and below a node. -/
def types : Derivation → List TypeExpr
  | .lexeme _ => []
  | .node n ds =>
      match n with
      | .type | .genericArg | .typeBound | .pathSeg | .genericArgs => typesAll ds
      | .pathType => [.path (segments ds) (pathLifetimes ds) (typesAll ds) (span file ds)]
      | .refType =>
          (typesAll ds).map fun target =>
            .ref ((lexemesOf .lifetime ds).head?.map Token.text) (hasLexeme .mutWord ds) target
              (span file ds)
      | .tupleType => [.tuple (typesAll ds) (span file ds)]
      | .sliceType =>
          (typesAll ds).map fun item =>
            .slice item ((lexemesOf .number ds ++ lexemesOf .ident ds).head?.map Token.text)
              (span file ds)
      | .implType => [.object .impl (typesAll ds) (boundLifetimes ds) (span file ds)]
      | .dynType => [.object .dyn (typesAll ds) (boundLifetimes ds) (span file ds)]
      | .inferType => [.inferred (span file ds)]
      | _ => []

def typesAll : List Derivation → List TypeExpr
  | [] => []
  | d :: ds => types d ++ typesAll ds

end

def type? (ds : List Derivation) : Option TypeExpr :=
  (typesAll file ds).head?

def generic? (ds : List Derivation) : Option GenericParam :=
  match lexemesOf .ident ds with
  | name :: _ =>
      some ⟨if hasLexeme .constWord ds then .const else .type, name.text, span file ds⟩
  | [] => (lexemesOf .lifetime ds).head?.map fun l => ⟨.lifetime, l.text, span file ds⟩

def generics? (ds : List Derivation) : Option (List GenericParam) :=
  ((nodesOf .generics ds).flatMap (nodesOf .genericParam)).mapM (generic? file)

def pattern (ds : List Derivation) : Pattern :=
  match lexemesOf .ident ds with
  | name :: _ => .name name.text (hasLexeme .mutWord ds)
  | [] => if hasLexeme .wildcard ds then .wildcard else .tuple

def receiver (ds : List Derivation) : SelfParam where
  byRef := hasLexeme .amp ds
  mutable := hasLexeme .mutWord ds
  lifetime := (lexemesOf .lifetime ds).head?.map Token.text
  span := span file ds

def param? (ds : List Derivation) : Option Param := do
  let attrs ← ((nodesOf .paramAttrs ds).flatMap (nodesOf .paramAttr)).mapM (attribute? file)
  match nodesOf .selfParam ds, nodesOf .typedParam ds with
  | s :: _, _ => return .self (receiver file s)
  | [], t :: _ =>
      let p ← (nodesOf .pattern t).head?
      let type ← type? file t
      return .typed ⟨pattern p, type, attrs, span file t⟩
  | [], [] => none

/-- A node of a function or a constant, the attributes before it and the block around it. -/
structure Site where
  kind : Nonterminal
  parts : List Derivation
  attrs : List Derivation
  block : Option (List Derivation)

mutual

/-- The sites at and below a node. -/
def sites (attrs : List Derivation) (block : Option (List Derivation)) : Derivation → List Site
  | .lexeme _ => []
  | .node n ds =>
      (if n = .fnDef ∨ n = .constDef then [⟨n, ds, attrs, block⟩] else []) ++
        sitesAll (if n = .item ∨ n = .implMember then (nodesOf .attrs ds).flatten else attrs)
          (if n = .implDef then some ds else block) ds

def sitesAll (attrs : List Derivation) (block : Option (List Derivation)) :
    List Derivation → List Site
  | [] => []
  | d :: ds => sites attrs block d ++ sitesAll attrs block ds

end

def header? (ds : List Derivation) : Option ImplHeader := do
  let subject ← type? file ds
  let generics ← generics? file ds
  return ⟨subject, generics, span file ds⟩

def fn? (attrs : List Attribute) (block : Option ImplHeader) (ds : List Derivation) :
    Option FnDecl := do
  let name ← (lexemesOf .ident ds).head?
  let params ← ((nodesOf .params ds).flatMap (nodesOf .param)).mapM (param? file)
  let generics ← generics? file ds
  let result ← (nodesOf .retType ds).head?.mapM (type? file)
  return {
    name := name.text
    params
    result
    attrs
    generics
    asyncSpan := (lexemesOf .asyncWord ds).head?.map (spanAt file)
    block
    nameSpan := spanAt file name
    span := span file ds }

def const? (attrs : List Attribute) (block : Option ImplHeader) (ds : List Derivation) :
    Option ConstDecl := do
  let name ← (lexemesOf .ident ds).head?
  let type ← type? file ds
  let value ← (lexemesOf .initializer ds).head?
  return {
    name := name.text
    type
    value := String.ofList (Text.strip value.text.toList)
    attrs
    block
    nameSpan := spanAt file name
    span := span file ds }

/-- The declaration that a site spells. -/
def decl? (s : Site) : Option Decl := do
  let block ← s.block.mapM (header? file)
  let attrs ← (nodesOf .outerAttr s.attrs).mapM (attribute? file)
  if s.kind = .fnDef then (fn? file attrs block s.parts).map .fn
  else (const? file attrs block s.parts).map .const

end Spelled

namespace Grammar

section

variable {α : Type} {k kind mark : Terminal} {m n : Nonterminal} {f : α → List Derivation}

@[simp] theorem lexemesOf_nil : lexemesOf k [] = [] :=
  rfl

@[simp] theorem nodesOf_nil : nodesOf n [] = [] :=
  rfl

@[simp] theorem lexemesOf_append (as bs : List Derivation) :
    lexemesOf k (as ++ bs) = lexemesOf k as ++ lexemesOf k bs :=
  List.filterMap_append

@[simp] theorem nodesOf_append (as bs : List Derivation) :
    nodesOf n (as ++ bs) = nodesOf n as ++ nodesOf n bs :=
  List.filterMap_append

@[simp] theorem lexemesOf_part (l : Lexeme kind) :
    lexemesOf k l.part = if kind = k then [⟨kind, l⟩] else [] := by
  rw [lexemesOf, Lexeme.part]
  split <;> simp_all

@[simp] theorem nodesOf_part (l : Lexeme kind) : nodesOf n l.part = [] :=
  rfl

@[simp] theorem lexemesOf_node (ds : List Derivation) : lexemesOf k (node n ds) = [] :=
  rfl

@[simp] theorem nodesOf_node (ds : List Derivation) :
    nodesOf m (node n ds) = if n = m then [ds] else [] := by
  rw [nodesOf, node]
  split <;> simp_all

@[simp] theorem lexemesOf_maybePart (o : Option (Lexeme kind)) :
    lexemesOf k (maybeParts Lexeme.part o) =
      if kind = k then (o.map (Token.mk kind)).toList else [] := by
  cases o <;> simp [maybeParts]

@[simp] theorem nodesOf_maybePart (o : Option (Lexeme kind)) :
    nodesOf n (maybeParts Lexeme.part o) = [] := by
  cases o <;> rfl

@[simp] theorem lexemesOf_maybeNode (o : Option α) :
    lexemesOf k (maybeParts (fun a => node n (f a)) o) = [] := by
  cases o <;> rfl

@[simp] theorem nodesOf_maybeNode (o : Option α) :
    nodesOf m (maybeParts (fun a => node n (f a)) o) =
      if n = m then (o.map f).toList else [] := by
  cases o <;> simp [maybeParts]

@[simp] theorem nodesOf_flatMap (as : List α) :
    nodesOf m (as.flatMap fun a => node n (f a)) = if n = m then as.map f else [] := by
  induction as with
  | nil => simp
  | cons a as ih => by_cases h : n = m <;> simp_all

@[simp] theorem lexemesOf_flatMap (as : List α) :
    lexemesOf k (as.flatMap fun a => node n (f a)) = [] := by
  induction as with
  | nil => rfl
  | cons a as ih => simp [ih]

theorem Chain.nodesOf_parts (c : Chain mark α) :
    nodesOf m (c.parts fun a => node n (f a)) = if n = m then c.toList.map f else [] := by
  induction c with
  | one a => simp [parts, toList]
  | more front sep a ih => by_cases h : n = m <;> simp_all [parts, toList]

@[simp] theorem Series.nodesOf_parts (s : Series α) :
    nodesOf m (s.parts fun a => node n (f a)) = if n = m then s.toList.map f else [] := by
  simp [parts, Series.toList, s.items.nodesOf_parts]

theorem Group.flatMap_nodesOf (g : Group α) :
    (g.items.map (Series.parts fun a => node n (f a))).toList.flatMap (nodesOf n) =
      g.toList.map f := by
  cases h : g.items <;> simp [toList, h]

theorem Chain.lexemesOf_parts (hmark : mark ≠ k) (c : Chain mark (Lexeme kind)) :
    lexemesOf k (c.parts Lexeme.part) =
      if kind = k then c.toList.map (Token.mk kind) else [] := by
  induction c with
  | one a => simp [parts, toList]
  | more front sep a ih => by_cases h : kind = k <;> simp_all [parts, toList]

theorem BoundList.lexemesOf_parts (hmark : Terminal.plus ≠ k) (bs : BoundList) :
    lexemesOf k bs.parts = [] := by
  cases bs with
  | one b => simp [BoundList.parts]
  | more front sep b => simp [BoundList.parts, hmark, front.lexemesOf_parts hmark]

theorem PatternList.lexemesOf_parts (hmark : Terminal.comma ≠ k) (ps : PatternList) :
    lexemesOf k ps.parts = [] := by
  cases ps with
  | one p => simp [PatternList.parts]
  | more front sep p => simp [PatternList.parts, hmark, front.lexemesOf_parts hmark]

end

end Grammar

namespace Spelled

open Grammar (lexemesOf nodesOf hasLexeme Lexeme)

variable (file : Option String)

@[simp] theorem text_mk {kind : Terminal} (l : Lexeme kind) : Token.text ⟨kind, l⟩ = l.text :=
  rfl

@[simp] theorem spanAt_mk {kind : Terminal} (l : Lexeme kind) :
    spanAt file ⟨kind, l⟩ = l.span file :=
  rfl

theorem span_eq {ds : List Derivation} {ts : List Token} (h : tokensAll ds = ts) :
    span file ds = Grammar.spanOf file ts := by
  rw [span, h]

theorem path_parts (r : Grammar.Route) : path file r.parts = AttrPath.ofTree file r := by
  have hnames := Grammar.Chain.lexemesOf_parts (k := .ident) (by decide) r
  rw [if_pos rfl] at hnames
  rw [path, Grammar.Route.parts, hnames, List.map_map]
  exact congrArg _ (span_eq file r.tokensAll_parts)

theorem literal?_parts (l : Grammar.Literal) :
    literal? file l.parts = (Literal.ofTree file l).toOption := by
  cases l with
  | string l =>
    rw [Literal.ofTree, Grammar.Literal.parts, Lexeme.part, literal?, literalAt?]
    cases h : Escape.decode (unquote l.text) <;> simp [h]
  | number l =>
    rw [Literal.ofTree, Grammar.Literal.parts, Lexeme.part, literal?, literalAt?]
    by_cases hpoint : '.' ∈ l.text.toList
    · simp [hpoint]
    · cases h : Number.intOfDigits l.text.toList <;> simp [hpoint, h]
  | yes l => rfl
  | no l => rfl

theorem arg?_parts (i : Grammar.MetaItem) :
    arg? file i.parts = (AttrArg.ofTree file i).toOption := by
  cases i with
  | route r => simp [Grammar.MetaItem.parts, arg?, path_parts, AttrArg.ofTree]
  | assign r eq value =>
    simp [Grammar.MetaItem.parts, arg?, path_parts, literal?_parts, AttrArg.ofTree, span,
      Grammar.MetaItem.tokens]
  | literal value => simp [Grammar.MetaItem.parts, arg?, literal?_parts, AttrArg.ofTree]

theorem form?_parts (inner : Bool) (s : Span) (m : Grammar.Meta) :
    (do
      let p ← (nodesOf .attrPath m.parts).head?
      let form ← form? file m.parts
      return ⟨path file p, form, inner, s⟩ : Option Attribute) =
      (Attribute.ofMeta file inner s m).toOption := by
  cases m with
  | word r => simp [Grammar.Meta.parts, form?, hasLexeme, path_parts, Attribute.ofMeta]
  | list r items =>
    have hargs := mapM_toOption (arg?_parts file) items.toList
    rw [← Grammar.Group.flatMap_nodesOf (n := .metaArg)] at hargs
    have hform : form? file (Grammar.Meta.list r items).parts =
        (items.toList.mapM (AttrArg.ofTree file)).toOption.map .list := by
      simp [Grammar.Meta.parts, form?, hasLexeme, hargs]
    rw [hform]
    simp [Grammar.Meta.parts, path_parts, Attribute.ofMeta, Option.map_eq_bind, Option.bind_assoc]
  | value r eq v =>
    simp [Grammar.Meta.parts, form?, path_parts, literal?_parts, Attribute.ofMeta,
      Option.map_eq_bind, Option.bind_assoc]

theorem attribute?_parts (a : Grammar.AttrTree) :
    attribute? file a.parts = (Attribute.ofTree file a).toOption := by
  cases a with
  | doc l => simp [Grammar.AttrTree.parts, attribute?, Attribute.ofTree]
  | written hash bang opens content closes =>
    have hbang : hasLexeme .bang (Grammar.AttrTree.written hash bang opens content closes).parts =
        bang.isSome := by
      cases bang <;> simp [Grammar.AttrTree.parts, hasLexeme]
    rw [attribute?, hbang, span_eq file (Grammar.AttrTree.tokensAll_parts _)]
    simp [Grammar.AttrTree.parts, Attribute.ofTree, ← form?_parts]

theorem attribute?_paramParts (a : Grammar.ParamAttrTree) :
    attribute? file a.parts = (Attribute.ofParam file a).toOption := by
  have hbang : hasLexeme .bang a.parts = false := by
    simp [Grammar.ParamAttrTree.parts, hasLexeme]
  rw [attribute?, hbang, span_eq file a.tokensAll_parts]
  simp [Grammar.ParamAttrTree.parts, Attribute.ofParam, ← form?_parts]

@[simp] theorem typesAll_nil : typesAll file [] = [] :=
  rfl

@[simp] theorem typesAll_append (as bs : List Derivation) :
    typesAll file (as ++ bs) = typesAll file as ++ typesAll file bs := by
  induction as with
  | nil => rfl
  | cons a as ih => rw [List.cons_append, typesAll, ih, typesAll, List.append_assoc]

@[simp] theorem typesAll_part {kind : Terminal} (l : Lexeme kind) : typesAll file l.part = [] :=
  rfl

@[simp] theorem typesAll_node (n : Nonterminal) (ds : List Derivation) :
    typesAll file (Grammar.node n ds) = types file (.node n ds) := by
  rw [Grammar.node, typesAll, typesAll, List.append_nil]

@[simp] theorem typesAll_maybePart {kind : Terminal} (o : Option (Lexeme kind)) :
    typesAll file (Grammar.maybeParts Lexeme.part o) = [] := by
  cases o <;> rfl

theorem segments_parts (p : Grammar.PathTree) : segments p.parts = p.names := by
  cases p with
  | one s => cases s <;> rfl
  | more front sep s =>
    have hfront := segments_parts front
    rw [segments] at hfront
    cases s <;>
      simp [segments, Grammar.PathTree.parts, Grammar.PathTree.names, Grammar.SegmentTree.parts,
        Grammar.SegmentTree.name, hfront]

theorem lifetimes_args (as : Grammar.ArgList) :
    ((nodesOf .genericArg as.parts).flatMap (lexemesOf .lifetime)).map Token.text =
      as.lifetimes := by
  cases as with
  | one a =>
    cases a <;> simp [Grammar.ArgList.parts, Grammar.ArgList.lifetimes, Grammar.ArgTree.parts,
      Grammar.ArgTree.lifetimes]
  | more front sep a =>
    have hfront := lifetimes_args front
    cases a <;> simp [Grammar.ArgList.parts, Grammar.ArgList.lifetimes, Grammar.ArgTree.parts,
      Grammar.ArgTree.lifetimes, hfront]

theorem pathLifetimes_parts (p : Grammar.PathTree) : pathLifetimes p.parts = p.lifetimes := by
  cases p with
  | one s =>
    cases s <;> simp [pathLifetimes, Grammar.PathTree.parts, Grammar.SegmentTree.parts,
      Grammar.PathTree.lifetimes, Grammar.SegmentTree.lifetimes, lifetimes_args]
  | more front sep s =>
    have hfront := pathLifetimes_parts front
    rw [pathLifetimes] at hfront
    cases s <;> simp [pathLifetimes, Grammar.PathTree.parts, Grammar.SegmentTree.parts,
      Grammar.PathTree.lifetimes, Grammar.SegmentTree.lifetimes, lifetimes_args, hfront]

theorem boundLifetimes_parts (bs : Grammar.BoundList) :
    boundLifetimes bs.parts = bs.lifetimes := by
  cases bs with
  | one b =>
    cases b <;> simp [boundLifetimes, Grammar.BoundList.parts, Grammar.BoundTree.parts,
      Grammar.BoundList.lifetimes, Grammar.BoundTree.lifetimes]
  | more front sep b =>
    have hfront := boundLifetimes_parts front
    rw [boundLifetimes] at hfront
    cases b <;> simp [boundLifetimes, Grammar.BoundList.parts, Grammar.BoundTree.parts,
      Grammar.BoundList.lifetimes, Grammar.BoundTree.lifetimes, hfront]

theorem boundLifetimes_part_append {kind : Terminal} (l : Lexeme kind) (ds : List Derivation) :
    boundLifetimes (l.part ++ ds) = boundLifetimes ds :=
  rfl

mutual

theorem typesAll_typeTree : ∀ t : Grammar.TypeTree,
    typesAll file t.parts = [TypeExpr.ofTree file t]
  | .path p => by
      rw [Grammar.TypeTree.parts, typesAll_node, types, segments_parts, pathLifetimes_parts,
        typesAll_pathTree p, span_eq file p.tokensAll_parts, TypeExpr.ofTree]
  | .ref amp life mutable target => by
      have hmutable : hasLexeme .mutWord (amp.part ++ Grammar.maybeParts Lexeme.part life ++
          Grammar.maybeParts Lexeme.part mutable ++ Grammar.node .type target.parts) =
            mutable.isSome := by
        cases mutable <;> simp [hasLexeme]
      rw [Grammar.TypeTree.parts, typesAll_node, types, hmutable]
      simp [types, typesAll_typeTree target, TypeExpr.ofTree, span, Grammar.TypeTree.tokens,
        Option.head?_toList, Function.comp_def]
  | .unit opens closes => by
      simp [Grammar.TypeTree.parts, types, TypeExpr.ofTree, span, Grammar.TypeTree.tokens]
  | .tuple opens items trailing closes => by
      simp [Grammar.TypeTree.parts, types, typesAll_typeList items, TypeExpr.ofTree, span,
        Grammar.TypeTree.tokens]
  | .slice opens item closes => by
      simp [Grammar.TypeTree.parts, types, typesAll_typeTree item, TypeExpr.ofTree, span,
        Grammar.TypeTree.tokens]
  | .array opens item semi length closes => by
      cases length <;>
        simp [Grammar.TypeTree.parts, types, typesAll_typeTree item, TypeExpr.ofTree, span,
          Grammar.TypeTree.tokens, Grammar.ArrayLength.parts, Grammar.ArrayLength.tokens,
          Grammar.ArrayLength.text]
  | .object (.impl l) bounds => by
      simp [Grammar.TypeTree.parts, Grammar.ObjectWord.node, Grammar.ObjectWord.parts, types,
        typesAll_boundList bounds, TypeExpr.ofTree, span, Grammar.TypeTree.tokens,
        Grammar.ObjectWord.tokens, Grammar.ObjectWord.kind, boundLifetimes_part_append,
        boundLifetimes_parts]
  | .object (.dyn l) bounds => by
      simp [Grammar.TypeTree.parts, Grammar.ObjectWord.node, Grammar.ObjectWord.parts, types,
        typesAll_boundList bounds, TypeExpr.ofTree, span, Grammar.TypeTree.tokens,
        Grammar.ObjectWord.tokens, Grammar.ObjectWord.kind, boundLifetimes_part_append,
        boundLifetimes_parts]
  | .inferred l => by
      simp [Grammar.TypeTree.parts, types, TypeExpr.ofTree, span, Lexeme.token]
      rfl

theorem typesAll_typeList : ∀ ts : Grammar.TypeList,
    typesAll file ts.parts = TypeExpr.ofList file ts
  | .one t => by simp [Grammar.TypeList.parts, types, typesAll_typeTree t, TypeExpr.ofList]
  | .more front sep t => by
      simp [Grammar.TypeList.parts, types, typesAll_typeList front, typesAll_typeTree t,
        TypeExpr.ofList]

theorem typesAll_pathTree : ∀ p : Grammar.PathTree,
    typesAll file p.parts = TypeExpr.argsOfPath file p
  | .one s => by
      simp [Grammar.PathTree.parts, types, typesAll_segmentTree s, TypeExpr.argsOfPath]
  | .more front sep s => by
      simp [Grammar.PathTree.parts, types, typesAll_pathTree front, typesAll_segmentTree s,
        TypeExpr.argsOfPath]

theorem typesAll_segmentTree : ∀ s : Grammar.SegmentTree,
    typesAll file s.parts = TypeExpr.argsOfSegment file s
  | .plain name => by simp [Grammar.SegmentTree.parts, TypeExpr.argsOfSegment]
  | .generic name opens args trailing closes => by
      simp [Grammar.SegmentTree.parts, types, typesAll_argList args, TypeExpr.argsOfSegment]

theorem typesAll_argList : ∀ as : Grammar.ArgList,
    typesAll file as.parts = TypeExpr.ofArgs file as
  | .one a => by simp [Grammar.ArgList.parts, types, typesAll_argTree a, TypeExpr.ofArgs]
  | .more front sep a => by
      simp [Grammar.ArgList.parts, types, typesAll_argList front, typesAll_argTree a,
        TypeExpr.ofArgs]

theorem typesAll_argTree : ∀ a : Grammar.ArgTree,
    typesAll file a.parts = TypeExpr.ofArg file a
  | .type t => by simp [Grammar.ArgTree.parts, types, typesAll_typeTree t, TypeExpr.ofArg]
  | .lifetime l => by simp [Grammar.ArgTree.parts, TypeExpr.ofArg]

theorem typesAll_boundList : ∀ bs : Grammar.BoundList,
    typesAll file bs.parts = TypeExpr.ofBounds file bs
  | .one b => by simp [Grammar.BoundList.parts, types, typesAll_boundTree b, TypeExpr.ofBounds]
  | .more front sep b => by
      simp [Grammar.BoundList.parts, types, typesAll_boundList front, typesAll_boundTree b,
        TypeExpr.ofBounds]

theorem typesAll_boundTree : ∀ b : Grammar.BoundTree,
    typesAll file b.parts = TypeExpr.ofBound file b
  | .path p => by
      rw [Grammar.BoundTree.parts, typesAll_node, types, segments_parts, pathLifetimes_parts,
        typesAll_pathTree p, span_eq file p.tokensAll_parts, TypeExpr.ofBound]
  | .lifetime l => by simp [Grammar.BoundTree.parts, TypeExpr.ofBound]

end

theorem generic?_parts (g : Grammar.GenericTree) :
    generic? file g.parts = some (GenericParam.ofTree file g) := by
  have hspan := span_eq file g.tokensAll_parts
  cases g with
  | lifetime name bounds =>
    have hident : lexemesOf .ident (Grammar.GenericTree.lifetime name bounds).parts = [] := by
      cases bounds with
      | none => simp [Grammar.GenericTree.parts, Grammar.maybeParts]
      | some b =>
        simp [Grammar.GenericTree.parts, Grammar.maybeParts, Grammar.Chain.lexemesOf_parts]
    have hlifetime : (lexemesOf .lifetime (Grammar.GenericTree.lifetime name bounds).parts).head? =
        some ⟨_, name⟩ := by
      simp [Grammar.GenericTree.parts]
    rw [generic?, hident, hspan]
    simp [hlifetime, GenericParam.ofTree]
  | type name bounds =>
    have hconst : hasLexeme .constWord (Grammar.GenericTree.type name bounds).parts = false := by
      cases bounds with
      | none => simp [Grammar.GenericTree.parts, Grammar.maybeParts, hasLexeme]
      | some b =>
        simp [Grammar.GenericTree.parts, Grammar.maybeParts, hasLexeme,
          Grammar.BoundList.lexemesOf_parts]
    rw [generic?, hconst, hspan]
    simp [Grammar.GenericTree.parts, GenericParam.ofTree]
  | const word name colon type =>
    rw [generic?, hspan]
    simp [Grammar.GenericTree.parts, hasLexeme, GenericParam.ofTree]

theorem mapM_map_eq_some {α β γ : Type} {f : α → β} {g : γ → Option β} {e : α → γ}
    (h : ∀ a, g (e a) = some (f a)) (as : List α) : (as.map e).mapM g = some (as.map f) := by
  induction as with
  | nil => rfl
  | cons a as ih => simp [h, ih]

theorem generics?_eq {ds : List Derivation} {o : Option Grammar.GenericsTree}
    (h : nodesOf .generics ds = (o.map Grammar.GenericsTree.parts).toList) :
    generics? file ds = some (GenericParam.listOf file o) := by
  rw [generics?, h]
  cases o with
  | none => rfl
  | some g =>
    have hparams : nodesOf .genericParam g.parts =
        g.params.toList.map Grammar.GenericTree.parts := by
      simp [Grammar.GenericsTree.parts]
    simp only [Option.map_some, Option.toList_some, List.flatMap_singleton, hparams]
    exact mapM_map_eq_some (generic?_parts file) g.params.toList

theorem pattern_parts (p : Grammar.PatternTree) : pattern p.parts = Pattern.ofTree p := by
  cases p with
  | name mutable name =>
    cases mutable <;> simp [Grammar.PatternTree.parts, Grammar.maybeParts, pattern, hasLexeme,
      Pattern.ofTree]
  | wildcard l => simp [Grammar.PatternTree.parts, pattern, hasLexeme, Pattern.ofTree]
  | unit opens closes => simp [Grammar.PatternTree.parts, pattern, hasLexeme, Pattern.ofTree]
  | tuple opens items trailing closes =>
    simp [Grammar.PatternTree.parts, pattern, hasLexeme, Pattern.ofTree,
      Grammar.PatternList.lexemesOf_parts]

theorem receiver_parts (s : Grammar.SelfTree) :
    receiver file s.parts = SelfParam.ofTree file s := by
  rw [receiver, span_eq file s.tokensAll_parts]
  cases s with
  | value mutable word =>
    cases mutable <;> simp [Grammar.SelfTree.parts, Grammar.maybeParts, hasLexeme, SelfParam.ofTree]
  | ref amp life mutable word =>
    cases mutable <;> cases life <;>
      simp [Grammar.SelfTree.parts, Grammar.maybeParts, hasLexeme, SelfParam.ofTree]

theorem param?_parts (p : Grammar.ParamTree) :
    param? file p.parts = (Param.ofTree file p).toOption := by
  have hattrs := mapM_toOption (attribute?_paramParts file) p.attrs
  cases hbody : p.body with
  | receiver s =>
    simp [param?, Grammar.ParamTree.parts, hbody, Grammar.ParamBody.parts, Param.ofTree, hattrs,
      receiver_parts, Option.map_eq_bind]
  | typed pattern colon type =>
    have htype : type? file (Grammar.node .pattern pattern.parts ++
        (colon.part ++ Grammar.node .type type.parts)) = some (.ofTree file type) := by
      simp [type?, types, typesAll_typeTree]
    simp [param?, Grammar.ParamTree.parts, hbody, Grammar.ParamBody.parts, Param.ofTree, hattrs,
      pattern_parts, htype, span, Grammar.ParamBody.tokens, Option.map_eq_bind]

theorem typesAll_maybeNode {α : Type} {n : Nonterminal} {f : α → List Derivation}
    (h : ∀ ds, types file (.node n ds) = []) (o : Option α) :
    typesAll file (Grammar.maybeParts (fun a => Grammar.node n (f a)) o) = [] := by
  cases o <;> simp [Grammar.maybeParts, h]

theorem fn?_parts (attrs : List Attribute) (block : Option ImplHeader) (t : Grammar.FnTree) :
    fn? file attrs block t.parts = (FnDecl.ofTree file block attrs t).toOption := by
  have hname : lexemesOf .ident t.parts = [⟨.ident, t.name⟩] := by
    cases h : t.ending <;> simp [Grammar.FnTree.parts, Grammar.FnEnd.parts, h]
  have hasync : (lexemesOf .asyncWord t.parts).head?.map (spanAt file) =
      t.asynchronous.map (·.span file) := by
    cases h : t.ending <;>
      simp [Grammar.FnTree.parts, Grammar.FnEnd.parts, h, Function.comp_def]
  have hgenerics : nodesOf .generics t.parts =
      (t.generics.map Grammar.GenericsTree.parts).toList := by
    cases h : t.ending <;> simp [Grammar.FnTree.parts, Grammar.FnEnd.parts, h]
  have hparams : (nodesOf .params t.parts).flatMap (nodesOf .param) =
      t.params.toList.map Grammar.ParamTree.parts := by
    cases h : t.ending <;>
      simp [Grammar.FnTree.parts, Grammar.FnEnd.parts, h, Grammar.Group.flatMap_nodesOf]
  have hresult : (nodesOf .retType t.parts).head?.mapM (type? file) =
      some (t.result.map fun r => TypeExpr.ofTree file r.2) := by
    cases h : t.ending <;> cases hresult : t.result <;>
      simp [Grammar.FnTree.parts, Grammar.FnEnd.parts, h, hresult, type?, types, typesAll_typeTree]
  rw [fn?, hname, hasync, hparams, hresult, generics?_eq file hgenerics,
    mapM_toOption (param?_parts file), span_eq file t.tokensAll_parts]
  simp [FnDecl.ofTree, Option.map_eq_bind]

theorem const?_parts (attrs : List Attribute) (block : Option ImplHeader) (t : Grammar.ConstTree) :
    const? file attrs block t.parts = some (ConstDecl.ofTree file block attrs t) := by
  have htype : type? file t.parts = some (.ofTree file t.type) := by
    have hvisibility := typesAll_maybeNode file (n := .visibility)
      (f := Grammar.Visibility.parts) (fun ds => by simp [types]) t.visibility
    simp [type?, Grammar.ConstTree.parts, types, typesAll_typeTree, hvisibility]
  rw [const?, htype, span_eq file t.tokensAll_parts]
  simp [Grammar.ConstTree.parts, ConstDecl.ofTree]

theorem header?_parts (t : Grammar.BlockTree) :
    header? file t.parts = some (ImplHeader.ofTree file t) := by
  have htype : type? file t.parts = some (.ofTree file t.head.subject) := by
    have hgenerics := typesAll_maybeNode file (n := .generics)
      (f := Grammar.GenericsTree.parts) (fun ds => by simp [types]) t.head.generics
    simp [type?, Grammar.BlockTree.parts, types, typesAll_typeTree, hgenerics]
  have hgenerics : nodesOf .generics t.parts =
      (t.head.generics.map Grammar.GenericsTree.parts).toList := by
    simp [Grammar.BlockTree.parts]
  rw [header?, htype, generics?_eq file hgenerics, span_eq file t.tokensAll_parts]
  rfl

def siteOf (block : Option Grammar.BlockTree) (attrs : List Grammar.AttrTree) :
    Grammar.MemberBody → Site
  | .fn f =>
      ⟨.fnDef, f.parts, attrs.flatMap fun a => Grammar.node .outerAttr a.parts,
        block.map Grammar.BlockTree.parts⟩
  | .const c =>
      ⟨.constDef, c.parts, attrs.flatMap fun a => Grammar.node .outerAttr a.parts,
        block.map Grammar.BlockTree.parts⟩

theorem decl?_siteOf (block : Option Grammar.BlockTree) (attrs : List Grammar.AttrTree)
    (m : Grammar.MemberBody) : decl? file (siteOf block attrs m) =
      (Decl.ofTree file (block.map (ImplHeader.ofTree file)) attrs m).toOption := by
  have hblock : (block.map Grammar.BlockTree.parts).mapM (header? file) =
      some (block.map (ImplHeader.ofTree file)) := by
    cases block <;> simp [header?_parts]
  have hattrs := mapM_toOption (attribute?_parts file) attrs
  cases m with
  | fn f => simp [decl?, siteOf, hblock, hattrs, fn?_parts, Decl.ofTree]
  | const c =>
    simp only [decl?, siteOf, hblock, Grammar.nodesOf_flatMap, if_true, hattrs, const?_parts]
    simp [Decl.ofTree, Option.bind_eq_bind]
    exact Option.map_eq_bind.symm

end Spelled

end NativeBinding
