/-!
# Places of files

The configuration and the data of the program live in directories of its own. Each directory
lies below the one that an environment variable names; without the variable below the home
directory, and without that below the current directory.
-/

namespace TagWatch

/-- What the places of files depend on. -/
structure Places where
  /-- The directory for configuration, from the environment. -/
  configHome : Option String
  /-- The directory for data, from the environment. -/
  dataHome : Option String
  /-- The home directory from the environment, which counts if it is not empty. -/
  home : Option String
  /-- The home directory of the account. -/
  accountHome : Option String
  deriving Repr, DecidableEq

namespace Places

/-- A path with one more part: a slash stands between, unless there is one already or nothing in
front. -/
def join (path part : String) : String :=
  if path.isEmpty || path.endsWith "/" then path ++ part else path ++ "/" ++ part

/-- The name of the directories of the program. -/
def directory : String := "tagscope"

/-- The home directory. -/
def homeDirectory (p : Places) : Option String :=
  match p.home with
  | some home => if home.isEmpty then p.accountHome else some home
  | none => p.accountHome

/-- A directory of the program: below the given one, or below a part of the home directory. -/
def below (p : Places) (given : Option String) (part : String) : String :=
  join ((given.or (p.homeDirectory.map (join · part))).getD ".") directory

/-- The place of the configuration. -/
def configPath (p : Places) : String := join (p.below p.configHome ".config") "config.json"

/-- The directory of data. -/
def dataDirectory (p : Places) : String := p.below p.dataHome ".local/share"

/-- The place of the log. -/
def logPath (p : Places) : String := join p.dataDirectory "tagscope.log"

end Places

end TagWatch
