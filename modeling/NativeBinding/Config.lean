import NativeBinding.Binding.Assemble
import NativeBinding.Json.Read

/-!
Configuration: the types that mark context handles, and the number of workers. A file replaces the
default types, command-line overrides add to them. The number of workers is positive in every
configuration.

A file that is not JSON is reported in one wording, `malformed JSON`, whatever is wrong with it. This
stands in for the words of the JSON reader, which would name the fault and its place in the file.
-/

namespace NativeBinding

structure Config where
  /-- No type occurs twice. -/
  contextTypes : List String := defaultContextTypes
  jobs : Nat := 1
  jobs_pos : 1 ≤ jobs := by decide

inductive ConfigError
  | malformed
  | oversized (cause : Number.Oversized)
  | notObject
  | unsupported
  | contextTypes
  | fileJobs
  | jobs
  | undecodable (cause : Text.Utf8.Error)
  deriving DecidableEq

def ConfigError.message : ConfigError → String
  | malformed => "malformed JSON"
  | oversized e => e.message
  | notObject => "config must be a JSON object"
  | unsupported => "unsupported config format/version"
  | contextTypes => "config context_types must be a list of non-empty strings"
  | fileJobs => "config jobs must be a positive integer"
  | jobs => "jobs must be at least 1"
  | undecodable e => e.message

def addNew (known : List String) (added : List String) : List String :=
  added.foldl (fun xs x => if xs.contains x then xs else xs ++ [x]) known

namespace Config

def standard : Config := {}

def formatName : String :=
  "callspec-config"

/-- Whether a value equals zero: the version of the format. -/
def isVersion : Json → Bool
  | .int n => n == 0
  | .float x => x.magnitude.isZero
  | .bool b => !b
  | _ => false

def isFormat : Json → Bool
  | .str s => s == formatName
  | _ => false

def typeNames? : List Json → Option (List String)
  | [] => some []
  | .str s :: vs => if s.isEmpty then none else (typeNames? vs).map (s :: ·)
  | _ => none

def readContextTypes (c : Config) : Option Json → Except ConfigError Config
  | none | some .null => .ok c
  | some (.arr items) =>
      match typeNames? items with
      | some names => .ok { c with contextTypes := addNew [] names }
      | none => .error .contextTypes
  | some _ => .error .contextTypes

def readJobs (c : Config) : Option Json → Except ConfigError Config
  | none | some .null => .ok c
  | some (.int n) =>
      if h : 1 ≤ n.toNat then .ok { c with jobs := n.toNat, jobs_pos := h } else .error .fileJobs
  | some _ => .error .fileJobs

def ofJson : Json → Except ConfigError Config
  | .obj members =>
      if (Json.member? "format" members).any isFormat &&
          (Json.member? "version" members).any isVersion then
        (readContextTypes standard (Json.member? "context_types" members)).bind fun c =>
          c.readJobs (Json.member? "jobs" members)
      else .error .unsupported
  | _ => .error .notObject

def ofText (text : List Char) : Except ConfigError Config :=
  match Json.read text with
  | .ok v => ofJson v
  | .error .malformed => .error .malformed
  | .error (.oversized e) => .error (.oversized e)

def ofBytes (bytes : List UInt8) : Except ConfigError Config :=
  match Text.Utf8.decode bytes with
  | .ok cs => ofText (Text.normalizeLines cs)
  | .error e => .error (.undecodable e)

def override (c : Config) (added : List String) : Option Int → Except ConfigError Config
  | none => .ok { c with contextTypes := addNew c.contextTypes added }
  | some n =>
      if h : 1 ≤ n.toNat then
        .ok { contextTypes := addNew c.contextTypes added, jobs := n.toNat, jobs_pos := h }
      else .error .jobs

end Config

end NativeBinding
