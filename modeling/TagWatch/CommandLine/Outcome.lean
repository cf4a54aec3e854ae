import TagWatch.CommandLine.Arguments
import TagWatch.Run.Configured
import TagWatch.Run.Document
import TagWatch.Run.Summary

/-!
# What a command line leads to

A command is performed in a fixed order: the configuration is read, the log is set up, the image
references are read, and then all of them are checked in one run. Whatever goes wrong first is
reported, and nothing after it happens. So a log is written exactly if the configuration could be
read and asks for one, even when a reference turns out to be invalid.

The exit status is 0 for everything that was done, 1 for a failure on the way, 2 for a command
line that cannot be understood and 101 when the limiter cannot be set up.
-/

namespace TagWatch.CommandLine

open Text (unlines)

/-- Why a check cannot be done. -/
inductive Failure where
  | config (error : ConfigError)
  | reference (text : String)
  deriving Repr, DecidableEq

/-- The lines of a complaint: what failed and, after an empty line, why. -/
def Failure.lines : Failure → List String
  | config error => ["Failed to load config", "", "Caused by:", "    " ++ error.message]
  | reference text => ["Invalid image reference: " ++ text]

/-- What the program ends with. -/
inductive Outcome where
  | help
  | version
  | report (report : Report) (json : Bool)
  | failure (failure : Failure)
  | misuse (error : UsageError)
  /-- The configuration asks for more slots than a pool can have. -/
  | infeasible
  deriving Repr, DecidableEq

/-- The name and the version of the program. -/
def versionLine : String := "tagscope 0.1.0"

/-- The lines of the instructions for use. -/
def helpLines : List String :=
  ["Check container images for newer tags and digests",
    "",
    "Usage: tagscope check [OPTIONS] <IMAGES>...",
    "",
    "Arguments:",
    "  <IMAGES>...  Image references such as nginx:1.25 or ghcr.io/org/app:v1.2.0",
    "",
    "Options:",
    "      --config <CONFIG>        Config file",
    "                               [default: $XDG_CONFIG_HOME/tagscope/config.json]",
    "      --scope <SCOPE>          Update scope applied to every image [default: patch]",
    "      --prereleases            Consider prerelease tags",
    "      --digest <IMAGE=DIGEST>  Last known digest for a floating tag, as IMAGE=DIGEST",
    "      --json                   Print decisions and metrics as JSON",
    "  -h, --help                   Print help",
    "  -V, --version                Print version"]

namespace Outcome

/-- The exit status. -/
def status : Outcome → Nat
  | help | version | report _ _ => 0
  | failure _ => 1
  | misuse _ => 2
  | infeasible => 101

/-- The text on standard output. -/
def output (times : RunTimes) : Outcome → String
  | help => unlines helpLines
  | version => unlines [versionLine]
  | report r json => if json then unlines [(r.toJson times).pretty] else r.summary
  | failure _ | misuse _ | infeasible => ""

/-- The text on standard error. Who asks for nothing gets the instructions. -/
def complaint : Outcome → String
  | help | version | report _ _ => ""
  | failure f => "Error: " ++ unlines f.lines
  | misuse .nothingAsked => unlines helpLines
  | misuse error => unlines ["error: " ++ error.message]
  | infeasible => unlines ["the limiter cannot have that many slots"]

end Outcome

namespace CheckRequest

/-- The configuration of a check, given what is in its file: the named one has to exist, the
default one need not. -/
def configure (r : CheckRequest) (file : FileContent) : Except ConfigError Config :=
  let loaded := if r.config.isSome then Config.load file else Config.loadDefault file
  loaded.map fun config =>
    { config with includePrereleases := r.prereleases || config.includePrereleases }

/-- The container for a reference: a digest that the command line gives for exactly this text
replaces the one in the reference, and of several the last one counts. -/
def container (r : CheckRequest) (reference : String) : Except Failure Container :=
  match Container.ofReference? reference reference (r.scope.getD .patch) with
  | none => .error (.reference reference)
  | some c => .ok { c with digest := ((Table.ofList r.digests).get? reference).or c.digest }

/-- The containers of a check. -/
def containers (r : CheckRequest) : Except Failure (List Container) :=
  r.references.mapM r.container

end CheckRequest

variable {σ : Type}

/-- What a check with a configuration ends with. -/
def CheckRequest.perform (r : CheckRequest) (network : Http.Network σ) (config : Config)
    (state : σ) : Outcome :=
  match r.containers with
  | .error failure => .failure failure
  | .ok containers =>
    match (config.check config.factory network containers state).1 with
    | some report => .report report r.json
    | none => .infeasible

/-- What a check ends with, and whether it writes a log, given what is in its configuration
file. -/
def CheckRequest.run (r : CheckRequest) (network : Http.Network σ) (file : FileContent)
    (state : σ) : Outcome × Bool :=
  match r.configure file with
  | .error error => (.failure (.config error), false)
  | .ok config => (r.perform network config state, config.log.file)

end TagWatch.CommandLine
