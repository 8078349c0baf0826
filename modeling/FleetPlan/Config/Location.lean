/-
Where the configuration file is.

A variable may name its directory; without it the directory is the program's own
among the configurations of the user.
-/
import FleetPlan.Config.Basic

namespace FleetPlan

namespace Config

/-- The variable that names the directory. -/
def directoryVariable : String := "DECKHAND_CONFIG_DIR"

/-- The name of the directory among the user's configurations. -/
def directoryName : String := "deckhand"

def fileName : String := "config.toml"

def directoryRecord (message path : String) : LogRecord := ⟨.debug, .paths, message ++ ": " ++ path⟩

/-- The directory of the configuration file, and what is told about it. -/
def directory (env : Environment) : Except Failure (String × LogRecord) :=
  match env.get? directoryVariable, env.get? "XDG_CONFIG_HOME", env.home? with
  | some dir, _, _ =>
    let path := Path.expand env dir
    .ok (path, directoryRecord ("Using config dir from " ++ directoryVariable) path)
  | none, some dir, _ =>
    let path := Path.join dir directoryName
    .ok (path, directoryRecord "Using XDG_CONFIG_HOME" path)
  | none, none, some home =>
    let path := Path.join (Path.join home ".config") directoryName
    .ok (path, directoryRecord "Using default config dir" path)
  | none, none, none => .error ⟨"Could not determine home directory", []⟩

/-- The configuration file in its directory. -/
def fileIn (directory : String) : String := Path.join directory fileName

end Config

end FleetPlan
