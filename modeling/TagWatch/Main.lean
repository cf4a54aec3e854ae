import Std.Time.Format
import TagWatch.CommandLine.Outcome
import TagWatch.Config.Paths

/-!
# The program

Reads the arguments, the environment and the configuration file, prints the outcome and ends with
its exit status. All registries of the command line are asked over `https`; the program brings no
means to open such connections, so that it runs on `Network.offline`.
-/

namespace TagWatch

open CommandLine

/-- What is in a file. -/
def readContent (path : String) : IO FileContent := do
  try
    return .bytes (← IO.FS.readBinFile path)
  catch
    | .noFileOrDirectory .. => return .missing
    | .permissionDenied .. => return .forbidden
    | _ => return .directory

/-- The places of files in the current environment. -/
def currentPlaces : IO Places := do
  return {
    configHome := ← IO.getEnv "XDG_CONFIG_HOME"
    dataHome := ← IO.getEnv "XDG_DATA_HOME"
    home := ← IO.getEnv "HOME"
    accountHome := none }

/-- The current time, in universal time. -/
def currentTime : IO String := do
  return (Std.Time.DateTime.ofTimestamp (← Std.Time.Timestamp.now) .UTC).toISO8601String

/-- Opens the log, whose directory is made if need be. -/
def openLog (places : Places) : IO Unit := do
  IO.FS.createDirAll places.dataDirectory
  discard <| IO.FS.Handle.mk places.logPath .append

/-- What a command ends with. -/
def perform : Command → IO Outcome
  | .help => return .help
  | .version => return .version
  | .check request => do
    let places ← currentPlaces
    let file ← readContent (request.config.getD places.configPath)
    let (outcome, logged) := request.run Http.Network.offline file ()
    if logged then openLog places
    return outcome

/-- Runs the program and gives its exit status. -/
def runProgram (arguments : List String) : IO UInt32 := do
  let started ← currentTime
  let outcome ← match CommandLine.read arguments with
    | .ok command => perform command
    | .error error => pure (.misuse error)
  let times : RunTimes := ⟨started, ← currentTime⟩
  IO.print (outcome.output times)
  IO.eprint outcome.complaint
  return outcome.status.toUInt32

end TagWatch

/-- The entry of the program. -/
def main (arguments : List String) : IO UInt32 := TagWatch.runProgram arguments
