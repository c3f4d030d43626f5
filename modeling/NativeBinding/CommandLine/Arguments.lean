import NativeBinding.File.Path
import NativeBinding.Number.Integer

/-!
Command-line arguments. The arguments are first read as words: values, options, and the mark `--`
after which all are values. Options may be shortened to what tells them from the others, single
letters may be joined, and a value is attached to its option or stands next. A value that reads `--`
is taken for the mark, so that its option has none. The sources are one run of values, without an
option in between.
-/

namespace NativeBinding

/-- What the arguments ask for. In the value of an option, `none` is a value taken for the mark. -/
structure Options where
  sources : List Path
  json : Bool
  config : Option (Option Path)
  contextTypes : List (Option String)
  jobs : Option (Option Int)
  verbose : Bool

inductive UsageError
  | ambiguous (option : String)
  | missingValue
  | surplusValue
  | notAnInteger (found : String)
  | missingSource
  | unrecognized (args : List String)
  deriving DecidableEq

def UsageError.message : UsageError → String
  | ambiguous option => "ambiguous option: " ++ option
  | missingValue => "an option lacks its value"
  | surplusValue => "an option does not take a value"
  | notAnInteger found => "not an integer: " ++ found
  | missingSource => "no source is given"
  | unrecognized args => "unrecognized arguments: " ++ " ".intercalate args

inductive Stop
  | help
  | misuse (e : UsageError)
  deriving DecidableEq

namespace CommandLine

inductive Flag
  | help
  | json
  | verbose
  deriving DecidableEq

inductive Setting
  | config
  | contextType
  | jobs
  deriving DecidableEq

inductive Key
  | flag (f : Flag)
  | setting (s : Setting)
  deriving DecidableEq

def longNames : List (String × Key) :=
  [("--help", .flag .help), ("--json", .flag .json), ("--config", .setting .config),
   ("--context-type", .setting .contextType), ("--jobs", .setting .jobs),
   ("--verbose", .flag .verbose)]

def letters : List (Char × Key) :=
  [('h', .flag .help), ('j', .setting .jobs), ('v', .flag .verbose)]

def letterKey? (c : Char) : Option Key :=
  letters.lookup c

inductive Use
  | invalid (e : UsageError)
  | complete (flags : List Flag)
  | assigned (flags : List Flag) (s : Setting) (value : String)
  | wanting (flags : List Flag) (s : Setting)
  deriving DecidableEq

def Use.prepend (f : Flag) : Use → Use
  | invalid e => invalid e
  | complete flags => complete (f :: flags)
  | assigned flags s value => assigned (f :: flags) s value
  | wanting flags s => wanting (f :: flags) s

def Use.ofKey : Key → Option String → Use
  | .flag f, none => .complete [f]
  | .flag _, some _ => .invalid .surplusValue
  | .setting s, none => .wanting [] s
  | .setting s, some value => .assigned [] s value

/-- A flag by its letter with more letters after it. What follows the letter of a setting is its
value. -/
def Use.ofLetters (f : Flag) : List Char → Use
  | [] => .complete [f]
  | c :: cs =>
      match letterKey? c with
      | none => .invalid .surplusValue
      | some (.flag g) => (Use.ofLetters g cs).prepend f
      | some (.setting s) =>
          if cs.isEmpty then .wanting [f] s else .assigned [f] s (String.ofList cs)

def Use.joined : Key → List Char → Use
  | .flag _, [] => .invalid .surplusValue
  | .flag f, cs => .ofLetters f cs
  | .setting s, cs => .assigned [] s (String.ofList cs)

inductive Word
  | value (s : String)
  | separator
  | option (use : Use)
  | unknown (s : String)
  deriving DecidableEq

def areDigits (cs : List Char) : Bool :=
  !cs.isEmpty && cs.all Text.isDigit

/-- A minus sign with digits, a point among or before them at most. One line feed may end it. -/
def isNegativeNumber : List Char → Bool
  | '-' :: cs =>
      let body := if cs.getLast? == some '\n' then cs.dropLast else cs
      areDigits body ||
        (let whole := body.takeWhile Text.isDigit
         match body.drop whole.length with
         | '.' :: fraction => areDigits fraction
         | _ => false)
  | _ => false

def splitValue (cs : List Char) : List Char × Option String :=
  let name := cs.takeWhile (· != '=')
  match cs.drop name.length with
  | [] => (name, none)
  | _ :: value => (name, some (String.ofList value))

def Word.unnamed (cs : List Char) : Word :=
  if isNegativeNumber cs || cs.contains ' ' then .value (String.ofList cs)
  else .unknown (String.ofList cs)

def Word.ofName (cs : List Char) : Except UsageError Word :=
  let (name, attached) := splitValue cs
  match longNames.lookup (String.ofList name) with
  | some key => .ok (.option (.ofKey key attached))
  | none =>
      match longNames.filter fun n => name.isPrefixOf n.1.toList with
      | [] => .ok (.unnamed cs)
      | [(_, key)] => .ok (.option (.ofKey key attached))
      | _ => .error (.ambiguous (String.ofList cs))

def Word.ofLetter (c : Char) (rest : List Char) : Word :=
  match letterKey? c, rest with
  | none, _ => .unnamed ('-' :: c :: rest)
  | some key, [] => .option (.ofKey key none)
  | some key, '=' :: attached => .option (.joined key attached)
  | some key, attached => .option (.joined key attached)

def Word.ofArg (arg : String) : Except UsageError Word :=
  match arg.toList with
  | '-' :: '-' :: cs => Word.ofName ('-' :: '-' :: cs)
  | '-' :: c :: rest => .ok (.ofLetter c rest)
  | _ => .ok (.value arg)

def words : List String → Except UsageError (List Word)
  | [] => .ok []
  | arg :: args =>
      if arg == "--" then .ok (.separator :: args.map .value)
      else (Word.ofArg arg).bind fun w => (words args).map (w :: ·)

inductive Action
  | value (s : String)
  | separator
  | flag (f : Flag)
  | set (s : Setting) (value : String)
  | unknown (s : String)
  /-- The end of a run of values. -/
  | close
  | fail (e : UsageError)
  deriving DecidableEq

def Use.actions (next : Option String) : Use → List Action
  | invalid e => [.fail e]
  | complete flags => flags.map .flag
  | assigned flags s value => flags.map .flag ++ [.set s value]
  | wanting flags s =>
      match next with
      | some value => flags.map .flag ++ [.set s value]
      | none => [.fail .missingValue]

def Use.isWanting : Use → Bool
  | wanting .. => true
  | _ => false

def actions : List Word → List Action
  | [] => []
  | .value s :: ws => .value s :: actions ws
  | .separator :: ws => .separator :: actions ws
  | .unknown s :: ws => .close :: .unknown s :: actions ws
  | .option use :: .value s :: ws =>
      if use.isWanting then .close :: use.actions (some s) ++ actions ws
      else .close :: use.actions none ++ .value s :: actions ws
  | .option use :: ws => .close :: use.actions none ++ actions ws

structure Progress where
  sources : List String := []
  collecting : Bool := false
  unrecognized : List String := []
  json : Bool := false
  config : Option (Option String) := none
  contextTypes : List (Option String) := []
  jobs : Option (Option Int) := none
  verbose : Bool := false

namespace Progress

/-- Values are sources if they belong to the first run of values. -/
def addValue (p : Progress) (s : String) : Progress :=
  if p.collecting || p.sources.isEmpty then
    { p with sources := p.sources ++ [s], collecting := true }
  else { p with unrecognized := p.unrecognized ++ [s] }

def addUnknown (p : Progress) (s : String) : Progress :=
  { p with unrecognized := p.unrecognized ++ [s] }

def addSeparator (p : Progress) : Progress :=
  if p.collecting || p.sources.isEmpty then p else p.addUnknown "--"

def take (p : Progress) : Flag → Except Stop Progress
  | .help => .error .help
  | .json => .ok { p with json := true }
  | .verbose => .ok { p with verbose := true }

def unmarked (value : String) : Option String :=
  if value == "--" then none else some value

def set (p : Progress) (value : String) : Setting → Except Stop Progress
  | .config => .ok { p with config := some (unmarked value) }
  | .contextType => .ok { p with contextTypes := p.contextTypes ++ [unmarked value] }
  | .jobs =>
      match (unmarked value).map Number.readLoose? with
      | none => .ok { p with jobs := some none }
      | some (some n) => .ok { p with jobs := some (some n) }
      | some none => .error (.misuse (.notAnInteger value))

def apply (p : Progress) : Action → Except Stop Progress
  | .value s => .ok (p.addValue s)
  | .separator => .ok p.addSeparator
  | .flag f => p.take f
  | .set s value => p.set value s
  | .unknown s => .ok (p.addUnknown s)
  | .close => .ok { p with collecting := false }
  | .fail e => .error (.misuse e)

def run (p : Progress) : List Action → Except Stop Progress
  | [] => .ok p
  | a :: as => (p.apply a).bind fun q => q.run as

def finish (p : Progress) : Except Stop Options :=
  if p.sources.isEmpty then .error (.misuse .missingSource)
  else if !p.unrecognized.isEmpty then .error (.misuse (.unrecognized p.unrecognized))
  else
    .ok
      { sources := p.sources.map .ofString
        json := p.json
        config := p.config.map (·.map .ofString)
        contextTypes := p.contextTypes
        jobs := p.jobs
        verbose := p.verbose }

end Progress

end CommandLine

/-- The options of some arguments. An ambiguous option is refused before any takes effect; what else
is wrong is found in order. -/
def Options.ofArgs (args : List String) : Except Stop Options :=
  match CommandLine.words args with
  | .error e => .error (.misuse e)
  | .ok ws => (CommandLine.Progress.run {} (CommandLine.actions ws)).bind (·.finish)

end NativeBinding
