import NativeBinding.Span

/-!
Declared types. `render` writes a type in its canonical spelling: lifetimes before type arguments,
bounds before lifetimes, one space after each comma, and a comma after the only component of a
tuple. `parts` lists a type and all types inside it, outermost first.
-/

namespace NativeBinding

inductive ObjectKind
  | impl
  | dyn
  deriving DecidableEq

def ObjectKind.word : ObjectKind → String
  | impl => "impl"
  | dyn => "dyn"

inductive TypeExpr
  /-- A path `a::b<'l, T>`; the arguments of all segments in order. -/
  | path (segments lifetimes : List String) (args : List TypeExpr) (span : Span)
  | ref (lifetime : Option String) (mutable : Bool) (target : TypeExpr) (span : Span)
  | tuple (items : List TypeExpr) (span : Span)
  | slice (item : TypeExpr) (length : Option String) (span : Span)
  | object (kind : ObjectKind) (bounds : List TypeExpr) (lifetimes : List String) (span : Span)
  | inferred (span : Span)

namespace TypeExpr

def unit : TypeExpr :=
  .tuple [] {}

def span : TypeExpr → Span
  | path _ _ _ s => s
  | ref _ _ _ s => s
  | tuple _ s => s
  | slice _ _ s => s
  | object _ _ _ s => s
  | inferred s => s

mutual

def render : TypeExpr → String
  | .path segments lifetimes args _ =>
      let inside := lifetimes ++ renderAll args
      "::".intercalate segments ++
        (if inside.isEmpty then "" else "<" ++ ", ".intercalate inside ++ ">")
  | .ref lifetime mutable target _ =>
      "&" ++ (match lifetime with | some l => l ++ " " | none => "") ++
        (if mutable then "mut " else "") ++ target.render
  | .tuple items _ =>
      match renderAll items with
      | [item] => "(" ++ item ++ ",)"
      | texts => "(" ++ ", ".intercalate texts ++ ")"
  | .slice item length _ =>
      "[" ++ item.render ++ (match length with | some n => "; " ++ n | none => "") ++ "]"
  | .object kind bounds lifetimes _ =>
      kind.word ++ " " ++ " + ".intercalate (renderAll bounds ++ lifetimes)
  | .inferred _ => "_"

def renderAll : List TypeExpr → List String
  | [] => []
  | t :: ts => t.render :: renderAll ts

end

mutual

def parts : TypeExpr → List TypeExpr
  | .path segments lifetimes args s => .path segments lifetimes args s :: partsAll args
  | .ref lifetime mutable target s => .ref lifetime mutable target s :: target.parts
  | .tuple items s => .tuple items s :: partsAll items
  | .slice item length s => .slice item length s :: item.parts
  | .object kind bounds lifetimes s => .object kind bounds lifetimes s :: partsAll bounds
  | .inferred s => [.inferred s]

def partsAll : List TypeExpr → List TypeExpr
  | [] => []
  | t :: ts => t.parts ++ partsAll ts

end

def pathName? : TypeExpr → Option String
  | path segments _ _ _ => some ("::".intercalate segments)
  | _ => none

def lastSegment? : TypeExpr → Option String
  | path segments _ _ _ => segments.getLast?
  | _ => none

def referent : TypeExpr → TypeExpr
  | ref _ _ target _ => target.referent
  | t => t

def findImpl? (t : TypeExpr) : Option TypeExpr :=
  t.parts.find? fun
    | .object .impl _ _ _ => true
    | _ => false

/-- Whether `Self`, or the name of the type it stands for, occurs in a type. -/
def mentionsSelf (selfName : Option String) (t : TypeExpr) : Bool :=
  t.parts.any fun p => p.lastSegment?.any fun name =>
    name == "Self" || selfName.any fun self => name == self && !self.isEmpty

def isContext (contextTypes : List String) (t : TypeExpr) : Bool :=
  t.referent.lastSegment?.any contextTypes.contains

def optionArg? : TypeExpr → Option TypeExpr
  | path segments _ [arg] _ => if segments.getLast? == some "Option" then some arg else none
  | _ => none

end TypeExpr

end NativeBinding
