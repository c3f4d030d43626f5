import NativeBinding.CommandLine.Arguments
import NativeBinding.Config
import NativeBinding.Report.Render

/-!
A run of the command. The configuration comes from the file that the options name, or else from
`callspec.json` in the working directory if it is there, and the options override it. A
configuration that is refused is the only thing reported. A verbose run also traces its steps. A run
that cannot use the value of an option, or cannot read an integer in a source, ends without output.
-/

namespace NativeBinding

structure Surroundings where
  location : Path
  read : Path → Except FileFault (List UInt8)

structure Output where
  exitCode : Nat
  stdout : List String
  stderr : List String
  deriving DecidableEq

inductive Abort
  | unusable (s : CommandLine.Setting)
  | oversized (cause : Number.Oversized)
  deriving DecidableEq

def Abort.message : Abort → String
  | unusable .config => "--config has no value"
  | unusable .contextType => "--context-type has no value"
  | unusable .jobs => "--jobs has no value"
  | oversized e => e.message

inductive ConfigFault
  | unreadable (path : Path) (cause : FileFault)
  | refused (cause : ConfigError)
  deriving DecidableEq

namespace ConfigFault

def message : ConfigFault → String
  | unreadable path e => "invalid config: " ++ e.message path
  | refused e => "invalid config: " ++ e.message

def diagnostic (f : ConfigFault) (path : Option Path) : Diagnostic where
  message := f.message
  kind := some .configError
  code := some "config"
  phase := some "config"
  span := { file := path.map Path.text }

end ConfigFault

namespace CommandLine

def configName : String :=
  "callspec.json"

/-- A configuration file: the name it is reported by, and its content. -/
abbrev ConfigFile := Path × Except FileFault (List UInt8)

def configFile (w : Surroundings) (o : Options) : Except Abort (Option ConfigFile) :=
  match o.config with
  | some (some path) => .ok (some (path, w.read path))
  | some none => .error (.unusable .config)
  | none =>
      match w.read (.ofString configName) with
      | .error .missing => .ok none
      | content => .ok (some (w.location.child configName, content))

def loadConfig : Option ConfigFile → Except ConfigFault Config
  | none => .ok .standard
  | some (path, .error e) => .error (.unreadable path e)
  | some (_, .ok bytes) => (Config.ofBytes bytes).mapError .refused

def override (o : Options) (c : Config) : Except Abort (Except ConfigFault Config) :=
  match o.contextTypes.mapM id, o.jobs.mapM id with
  | none, _ => .error (.unusable .contextType)
  | _, none => .error (.unusable .jobs)
  | some types, some jobs => .ok ((c.override types jobs).mapError .refused)

/-- The configuration of a run. A file that is refused comes before the options. -/
def configure (o : Options) (file : Option ConfigFile) :
    Except Abort (Except ConfigFault Config) :=
  match loadConfig file with
  | .error f => .ok (.error f)
  | .ok c => override o c

def traced (step : String) : String :=
  "callspec.driver.callspecc: " ++ step

def configTrace (file : Option ConfigFile) : List String :=
  (file.map fun f => "loading config from " ++ f.1.text).toList

def sourceTrace (s : Source) : List String :=
  match s.reading with
  | .ok (.failure _) => [s.path.text ++ ": parse failed"]
  | .ok (.declarations ds) =>
      [s.path.text ++ ": " ++ toString ds.length ++ " exported declaration(s)"]
  | .error _ => []

def verdictTrace (v : Decl × Verdict) : String :=
  v.1.name ++ ": " ++ v.2.state

def outputOf (o : Options) (trace : List String) (r : Report) : Output :=
  let trace := if o.verbose then trace.map traced else []
  if o.json then ⟨r.exitCode, [r.toJson.render], trace⟩
  else ⟨r.exitCode, r.summaries, trace ++ r.remarks⟩

end CommandLine

open CommandLine

def Options.load (w : Surroundings) (o : Options) : List Source :=
  o.sources.map fun path => .ofBytes path (w.read path)

def Options.run (w : Surroundings) (o : Options) : Except Abort Output := do
  let file ← configFile w o
  let steps := configTrace file
  match ← configure o file with
  | .error f => return outputOf o steps (.ofFailure (f.diagnostic (file.map (·.1))))
  | .ok c =>
      let sources := o.load w
      let r ← (Report.ofSources c.contextTypes sources).mapError .oversized
      return outputOf o (steps ++ sources.flatMap sourceTrace ++ r.verdicts.map verdictTrace) r

end NativeBinding
