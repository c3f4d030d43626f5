import NativeBinding.Decl.Basic
import NativeBinding.Decl.Escape
import NativeBinding.Grammar.Tree
import NativeBinding.Number.Integer

/-!
What a concrete syntax tree declares. Every tree declares something, except for literals without a
value: a string with a bad escape, an integer with too many digits. The first such literal in the
text is the one reported. The arguments of a path are those of all its segments.
-/

namespace NativeBinding

inductive BadLiteral
  | escape (cause : EscapeError) (span : Span)
  | oversized (cause : Number.Oversized)
  deriving DecidableEq

namespace Grammar

def Lexeme.span (file : Option String) {kind : Terminal} (l : Lexeme kind) : Span :=
  .between file l.start l.stop

def SegmentTree.name : SegmentTree → String
  | .plain name => name.text
  | .generic name _ _ _ _ => name.text

def PathTree.names : PathTree → List String
  | .one s => [s.name]
  | .more front _ s => front.names ++ [s.name]

def ArgTree.lifetimes : ArgTree → List String
  | .type _ => []
  | .lifetime l => [l.text]

def ArgList.lifetimes : ArgList → List String
  | .one a => a.lifetimes
  | .more front _ a => front.lifetimes ++ a.lifetimes

def SegmentTree.lifetimes : SegmentTree → List String
  | .plain _ => []
  | .generic _ _ args _ _ => args.lifetimes

def PathTree.lifetimes : PathTree → List String
  | .one s => s.lifetimes
  | .more front _ s => front.lifetimes ++ s.lifetimes

def BoundTree.lifetimes : BoundTree → List String
  | .path _ => []
  | .lifetime l => [l.text]

def BoundList.lifetimes : BoundList → List String
  | .one b => b.lifetimes
  | .more front _ b => front.lifetimes ++ b.lifetimes

def ObjectWord.kind : ObjectWord → ObjectKind
  | .impl _ => .impl
  | .dyn _ => .dyn

end Grammar

mutual

def TypeExpr.ofTree (file : Option String) : Grammar.TypeTree → TypeExpr
  | .path p => .path p.names p.lifetimes (argsOfPath file p) (Grammar.spanOf file p.tokens)
  | .ref amp life mutable target =>
      .ref (life.map (·.text)) mutable.isSome (ofTree file target)
        (Grammar.spanOf file (Grammar.TypeTree.ref amp life mutable target).tokens)
  | .unit opens closes =>
      .tuple [] (Grammar.spanOf file (Grammar.TypeTree.unit opens closes).tokens)
  | .tuple opens items trailing closes =>
      .tuple (ofList file items)
        (Grammar.spanOf file (Grammar.TypeTree.tuple opens items trailing closes).tokens)
  | .slice opens item closes =>
      .slice (ofTree file item) none
        (Grammar.spanOf file (Grammar.TypeTree.slice opens item closes).tokens)
  | .array opens item semi length closes =>
      .slice (ofTree file item) (some length.text)
        (Grammar.spanOf file (Grammar.TypeTree.array opens item semi length closes).tokens)
  | .object word bounds =>
      .object word.kind (ofBounds file bounds) bounds.lifetimes
        (Grammar.spanOf file (Grammar.TypeTree.object word bounds).tokens)
  | .inferred l => .inferred (l.span file)

def TypeExpr.ofList (file : Option String) : Grammar.TypeList → List TypeExpr
  | .one t => [ofTree file t]
  | .more front _ t => ofList file front ++ [ofTree file t]

def TypeExpr.argsOfPath (file : Option String) : Grammar.PathTree → List TypeExpr
  | .one s => argsOfSegment file s
  | .more front _ s => argsOfPath file front ++ argsOfSegment file s

def TypeExpr.argsOfSegment (file : Option String) : Grammar.SegmentTree → List TypeExpr
  | .plain _ => []
  | .generic _ _ args _ _ => ofArgs file args

def TypeExpr.ofArgs (file : Option String) : Grammar.ArgList → List TypeExpr
  | .one a => ofArg file a
  | .more front _ a => ofArgs file front ++ ofArg file a

def TypeExpr.ofArg (file : Option String) : Grammar.ArgTree → List TypeExpr
  | .type t => [ofTree file t]
  | .lifetime _ => []

def TypeExpr.ofBounds (file : Option String) : Grammar.BoundList → List TypeExpr
  | .one b => ofBound file b
  | .more front _ b => ofBounds file front ++ ofBound file b

def TypeExpr.ofBound (file : Option String) : Grammar.BoundTree → List TypeExpr
  | .path p => [.path p.names p.lifetimes (argsOfPath file p) (Grammar.spanOf file p.tokens)]
  | .lifetime _ => []

end

def AttrPath.ofTree (file : Option String) (r : Grammar.Route) : AttrPath :=
  ⟨r.toList.map (·.text), Grammar.spanOf file r.tokens⟩

def unquote (text : String) : List Char :=
  text.toList.tail.dropLast

def Literal.ofTree (file : Option String) : Grammar.Literal → Except BadLiteral Literal
  | .string l =>
      match Escape.decode (unquote l.text) with
      | .ok cs => .ok ⟨.str (String.ofList cs), l.span file⟩
      | .error e => .error (.escape e (l.span file))
  | .number l =>
      let cs := l.text.toList
      if cs.contains '.' then .ok ⟨.float (.ofPointed cs), l.span file⟩
      else
        match Number.intOfDigits cs with
        | .ok n => .ok ⟨.int n, l.span file⟩
        | .error e => .error (.oversized e)
  | .yes l => .ok ⟨.bool true, l.span file⟩
  | .no l => .ok ⟨.bool false, l.span file⟩

def AttrArg.ofTree (file : Option String) (t : Grammar.MetaItem) : Except BadLiteral AttrArg :=
  match t with
  | .route r => .ok (.path (.ofTree file r))
  | .assign r _ value => do
      return .assign (.ofTree file r) (← Literal.ofTree file value) (Grammar.spanOf file t.tokens)
  | .literal value => return .literal (← Literal.ofTree file value)

def Attribute.ofMeta (file : Option String) (inner : Bool) (span : Span) :
    Grammar.Meta → Except BadLiteral Attribute
  | .word r => .ok ⟨.ofTree file r, .word, inner, span⟩
  | .list r items => do
      return ⟨.ofTree file r, .list (← items.toList.mapM (AttrArg.ofTree file)), inner, span⟩
  | .value r _ value => do
      return ⟨.ofTree file r, .value (← Literal.ofTree file value), inner, span⟩

def Attribute.ofTree (file : Option String) (t : Grammar.AttrTree) : Except BadLiteral Attribute :=
  match t with
  | .doc l =>
      let span := l.span file
      let text := String.ofList (l.text.toList.drop 3)
      .ok ⟨⟨["doc"], span⟩, .value ⟨.str text, span⟩, false, span⟩
  | .written _ bang _ content _ => ofMeta file bang.isSome (Grammar.spanOf file t.tokens) content

def Attribute.ofParam (file : Option String) (t : Grammar.ParamAttrTree) :
    Except BadLiteral Attribute :=
  ofMeta file false (Grammar.spanOf file t.tokens) t.content

def GenericParam.ofTree (file : Option String) (t : Grammar.GenericTree) : GenericParam :=
  let span := Grammar.spanOf file t.tokens
  match t with
  | .lifetime name _ => ⟨.lifetime, name.text, span⟩
  | .type name _ => ⟨.type, name.text, span⟩
  | .const _ name _ _ => ⟨.const, name.text, span⟩

def GenericParam.listOf (file : Option String) : Option Grammar.GenericsTree → List GenericParam
  | none => []
  | some g => g.params.toList.map (ofTree file)

def Pattern.ofTree : Grammar.PatternTree → Pattern
  | .name mutable l => .name l.text mutable.isSome
  | .wildcard _ => .wildcard
  | .unit .. | .tuple .. => .tuple

def SelfParam.ofTree (file : Option String) (t : Grammar.SelfTree) : SelfParam :=
  let span := Grammar.spanOf file t.tokens
  match t with
  | .value mutable _ => ⟨false, mutable.isSome, none, span⟩
  | .ref _ life mutable _ => ⟨true, mutable.isSome, life.map (·.text), span⟩

def Param.ofTree (file : Option String) (t : Grammar.ParamTree) : Except BadLiteral Param := do
  let attrs ← t.attrs.mapM (Attribute.ofParam file)
  return match t.body with
  | .receiver s => .self (.ofTree file s)
  | .typed pattern _ type =>
      .typed ⟨.ofTree pattern, .ofTree file type, attrs, Grammar.spanOf file t.body.tokens⟩

def FnDecl.ofTree (file : Option String) (block : Option ImplHeader) (attrs : List Attribute)
    (t : Grammar.FnTree) : Except BadLiteral FnDecl := do
  return {
    name := t.name.text
    params := ← t.params.toList.mapM (Param.ofTree file)
    result := t.result.map fun r => .ofTree file r.2
    attrs
    generics := GenericParam.listOf file t.generics
    asyncSpan := t.asynchronous.map (·.span file)
    block
    nameSpan := t.name.span file
    span := Grammar.spanOf file t.tokens }

def ConstDecl.ofTree (file : Option String) (block : Option ImplHeader) (attrs : List Attribute)
    (t : Grammar.ConstTree) : ConstDecl where
  name := t.name.text
  type := .ofTree file t.type
  value := String.ofList (Text.strip t.value.text.toList)
  attrs
  block
  nameSpan := t.name.span file
  span := Grammar.spanOf file t.tokens

def Decl.ofTree (file : Option String) (block : Option ImplHeader) (attrs : List Grammar.AttrTree)
    (t : Grammar.MemberBody) : Except BadLiteral Decl := do
  let attrs ← attrs.mapM (Attribute.ofTree file)
  match t with
  | .fn f => return .fn (← FnDecl.ofTree file block attrs f)
  | .const c => return .const (.ofTree file block attrs c)

def ImplHeader.ofTree (file : Option String) (t : Grammar.BlockTree) : ImplHeader where
  subject := .ofTree file t.head.subject
  generics := GenericParam.listOf file t.head.generics
  span := Grammar.spanOf file t.tokens

def SourceItem.ofTree (file : Option String) (t : Grammar.ItemTree) :
    Except BadLiteral SourceItem :=
  match t.body with
  | .member m => return .decl (← Decl.ofTree file none t.attrs m)
  | .block b => do
      let attrs ← t.attrs.mapM (Attribute.ofTree file)
      let header := ImplHeader.ofTree file b
      let members ← b.members.mapM fun m => Decl.ofTree file (some header) m.attrs m.body
      return .block ⟨header, members, attrs, header.span⟩

def SourceFile.ofTrees (file : Option String) (items : List Grammar.ItemTree) :
    Except BadLiteral SourceFile := do
  return ⟨← items.mapM (SourceItem.ofTree file), file⟩

end NativeBinding
