import NativeBinding.Decl.Type
import NativeBinding.Number.Binary64

/-!
Declarations of a native library: functions and constants with their attributes, free or inside an
`impl` block. Everything that a report can point at has a span.
-/

namespace NativeBinding

structure AttrPath where
  segments : List String
  span : Span

def AttrPath.text (p : AttrPath) : String :=
  "::".intercalate p.segments

inductive LiteralValue
  | str (s : String)
  | int (n : Int)
  | float (x : Number.Binary64)
  | bool (b : Bool)

structure Literal where
  value : LiteralValue
  span : Span

def Literal.str? (l : Literal) : Option String :=
  match l.value with
  | .str s => some s
  | _ => none

inductive AttrArg
  | path (p : AttrPath)
  | assign (name : AttrPath) (value : Literal) (span : Span)
  | literal (l : Literal)

def AttrArg.span : AttrArg → Span
  | path p => p.span
  | assign _ _ s => s
  | literal l => l.span

inductive AttrForm
  | word
  | list (args : List AttrArg)
  | value (l : Literal)

/-- A doc comment is an attribute `doc` with its text as the value. -/
structure Attribute where
  path : AttrPath
  form : AttrForm
  inner : Bool
  span : Span

def Attribute.name (a : Attribute) : String :=
  a.path.text

inductive Pattern
  | name (name : String) (mutable : Bool)
  | wildcard
  | tuple
  deriving DecidableEq

structure SelfParam where
  byRef : Bool
  mutable : Bool
  lifetime : Option String
  span : Span

structure TypedParam where
  pattern : Pattern
  type : TypeExpr
  attrs : List Attribute
  span : Span

inductive Param
  | self (p : SelfParam)
  | typed (p : TypedParam)

def Param.span : Param → Span
  | self p => p.span
  | typed p => p.span

inductive GenericKind
  | lifetime
  | type
  | const
  deriving DecidableEq

structure GenericParam where
  kind : GenericKind
  name : String
  span : Span

structure ImplHeader where
  subject : TypeExpr
  generics : List GenericParam
  span : Span

structure FnDecl where
  name : String
  params : List Param
  result : Option TypeExpr
  attrs : List Attribute
  generics : List GenericParam
  asyncSpan : Option Span
  block : Option ImplHeader
  nameSpan : Span
  span : Span

structure ConstDecl where
  name : String
  type : TypeExpr
  value : String
  attrs : List Attribute
  block : Option ImplHeader
  nameSpan : Span
  span : Span

inductive Decl
  | fn (d : FnDecl)
  | const (d : ConstDecl)

namespace Decl

def name : Decl → String
  | fn d => d.name
  | const d => d.name

def nameSpan : Decl → Span
  | fn d => d.nameSpan
  | const d => d.nameSpan

def span : Decl → Span
  | fn d => d.span
  | const d => d.span

def attrs : Decl → List Attribute
  | fn d => d.attrs
  | const d => d.attrs

def block : Decl → Option ImplHeader
  | fn d => d.block
  | const d => d.block

end Decl

structure ImplBlock where
  header : ImplHeader
  members : List Decl
  attrs : List Attribute
  span : Span

inductive SourceItem
  | decl (d : Decl)
  | block (b : ImplBlock)

def SourceItem.declarations : SourceItem → List Decl
  | decl d => [d]
  | block b => b.members

structure SourceFile where
  items : List SourceItem
  file : Option String

def SourceFile.declarations (s : SourceFile) : List Decl :=
  s.items.flatMap SourceItem.declarations

/-- A raw name without its mark: `r#type` names `type`. -/
def unraw (name : String) : String :=
  match name.toList with
  | 'r' :: '#' :: rest => String.ofList rest
  | _ => name

end NativeBinding
