import NativeBinding.Binding.Mark
import NativeBinding.Text.Blank

/-!
The list of an `#[args(...)]` attribute. Its items are read in order: `a` and `a = "default"` mark a
parameter, `a = "*"` and `a = "**"` mark it as variadic, and `"*"` alone separates. Marks after the
separator or after the variadic positional are keyword-only, and none follows the variadic keyword.
Each item has one outcome.
-/

namespace NativeBinding

inductive ItemOutcome
  | mark (m : ArgMark)
  | separator
  | fault (f : Finding)

def ItemOutcome.fail (f : Fault) (span : Span) : ItemOutcome :=
  .fault ⟨f, span⟩

structure ArgsState where
  separator : Bool := false
  varargs : Option String := none
  kwargs : Option String := none
  deriving DecidableEq

namespace ArgsState

def keywordOnly (s : ArgsState) : Bool :=
  s.separator || s.varargs.isSome

/-- A mark that needs the variadic keyword still to come. -/
def beforeKwargs (s : ArgsState) (span : Span) (outcome : ItemOutcome) : ItemOutcome :=
  match s.kwargs with
  | some kwargs => .fail (.afterKwargs kwargs) span
  | none => outcome

def ordinary (s : ArgsState) (default? : Option String) : MarkForm :=
  if s.keywordOnly then .keywordOnly default? else .positional default?

def readSeparator (s : ArgsState) (span : Span) : ItemOutcome :=
  if s.separator then .fail .secondSeparator span
  else
    match s.varargs with
    | some varargs => .fail (.separatorAfterVarargs varargs) span
    | none => s.beforeKwargs span .separator

def readVarargs (s : ArgsState) (name : String) (span : Span) : ItemOutcome :=
  match s.varargs with
  | some varargs => .fail (.secondVarargs varargs) span
  | none =>
      if s.separator then .fail .varargsAfterSeparator span
      else s.beforeKwargs span (.mark ⟨name, .variadicPositional, span⟩)

def readKwargs (s : ArgsState) (name : String) (span : Span) : ItemOutcome :=
  match s.kwargs with
  | some kwargs => .fail (.secondKwargs kwargs) span
  | none => .mark ⟨name, .variadicKeyword, span⟩

def readDefault (s : ArgsState) (name text : String) (valueSpan span : Span) : ItemOutcome :=
  s.beforeKwargs span
    (if (Text.strip text.toList).isEmpty then .fail (.emptyDefault name) valueSpan
    else .mark ⟨name, s.ordinary (some text), span⟩)

def readAssign (s : ArgsState) (name : String) (value : Literal) (span : Span) : ItemOutcome :=
  match value.str? with
  | none => .fail .defaultType value.span
  | some text =>
      if text == "*" then s.readVarargs name span
      else if text == "**" then s.readKwargs name span
      else s.readDefault name text value.span span

def read (s : ArgsState) : AttrArg → ItemOutcome
  | .literal l =>
      if l.str? == some "*" then s.readSeparator l.span else .fail .argsLiteral l.span
  | .path p =>
      match p.segments with
      | [name] => s.beforeKwargs p.span (.mark ⟨name, s.ordinary none, p.span⟩)
      | _ => .fail (.argsPath p.text) p.span
  | .assign p value span =>
      match p.segments with
      | [name] => s.readAssign name value span
      | _ => .fail (.argsPath p.text) p.span

def after (s : ArgsState) : ItemOutcome → ArgsState
  | .separator => { s with separator := true }
  | .mark m =>
      match m.form with
      | .variadicPositional => { s with varargs := some m.name }
      | .variadicKeyword => { s with kwargs := some m.name }
      | .positional _ | .keywordOnly _ => s
  | .fault _ => s

def readAll : ArgsState → List AttrArg → List ItemOutcome
  | _, [] => []
  | s, item :: items =>
      let outcome := s.read item
      outcome :: (s.after outcome).readAll items

end ArgsState

def readArgs (items : List AttrArg) : List ItemOutcome :=
  ArgsState.readAll {} items

end NativeBinding
