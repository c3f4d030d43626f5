import NativeBinding.CommandLine.Run

/-!
The command. It gathers what a run needs, and prints what the run says.
-/

namespace NativeBinding

def usage : String :=
  "usage: native-binding [-h] [--json] [--config FILE] [--context-type NAME] [-j JOBS] [-v] " ++
    "source ..."

def FileFault.ofError : IO.Error → FileFault
  | .noFileOrDirectory .. => .missing
  | .inappropriateType _ 21 _ => .directory
  | .inappropriateType .. => .notDirectory
  | .permissionDenied .. => .other 13 "Permission denied"
  | _ => .other 5 "Input/output error"

def readFile (p : Path) : IO (Except FileFault (List UInt8)) := do
  try
    return .ok (← IO.FS.readBinFile p.text).toList
  catch e =>
    return .error (.ofError e)

def Options.files (o : Options) : List Path :=
  o.config.join.getD (.ofString CommandLine.configName) :: o.sources

def printLines (stream : IO.FS.Stream) (lines : List String) : IO Unit :=
  lines.forM stream.putStrLn

def Options.execute (o : Options) : IO UInt32 := do
  let contents ← o.files.mapM fun p => return (p, ← readFile p)
  let location := Path.ofString (← IO.currentDir).toString
  match o.run ⟨location, fun p => (contents.lookup p).getD (.error .missing)⟩ with
  | .ok out =>
      printLines (← IO.getStderr) out.stderr
      printLines (← IO.getStdout) out.stdout
      return out.exitCode.toUInt32
  | .error e =>
      IO.eprintln e.message
      return 1

end NativeBinding

open NativeBinding in
def main (args : List String) : IO UInt32 := do
  match Options.ofArgs args with
  | .ok o => o.execute
  | .error .help =>
      IO.println usage
      return 0
  | .error (.misuse e) =>
      IO.eprintln usage
      IO.eprintln ("error: " ++ e.message)
      return 2
