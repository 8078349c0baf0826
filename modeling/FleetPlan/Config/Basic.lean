/-
The configuration.

It gives the defaults of slicing and running.  Every setting may be left out, and
nothing else may stand in the file.
-/
import FleetPlan.Action
import FleetPlan.Json.Record
import FleetPlan.Path
import FleetPlan.Run.Basic
import FleetPlan.Toml.Value

namespace FleetPlan

open Json

/-- Why a configuration is refused. -/
inductive ConfigError where
  | malformed
  | unknownAction (name : String)
  deriving DecidableEq, Repr

namespace ConfigError

def failure : ConfigError → Failure
  | malformed => ⟨"Invalid TOML format in deckhand config", []⟩
  | unknownAction name => ⟨"[execution].actions: " ++ Action.unknownMessage name, []⟩

end ConfigError

structure Config where
  /-- Where host plans are written when the command does not say. -/
  outputDir : Option String
  maxParallel : IntIn .count
  dryRun : Bool
  /-- The names of the actions that are carried out. -/
  actions : List String
  deriving DecidableEq, Repr

namespace Config

/-- What holds when nothing is said. -/
def default : Config := ⟨none, .zero, false, Action.all.map Action.name⟩

/-! ### Reading -/

/-- A list of texts. -/
def textsOf? : List Toml.Value → Option (List String)
  | [] => some []
  | .text s :: rest => (textsOf? rest).map (s :: ·)
  | _ => none

/-- The configuration with one more setting of slicing. -/
def withSlice (c : Config) : String × Toml.Value → Option Config
  | ("output_dir", .text s) => some { c with outputDir := some s }
  | _ => none

/-- The configuration with one more setting of running. -/
def withExecution (c : Config) : String × Toml.Value → Option Config
  | ("max_parallel", .scalar (.integer i)) => do
    let n ← IntIn.ofInt? .count i
    return { c with maxParallel := n }
  | ("dry_run", .scalar (.boolean b)) => some { c with dryRun := b }
  | ("actions", .list items) => do
    let names ← textsOf? items
    return { c with actions := names }
  | _ => none

/--
The settings that a group gives: a table gives them by name, a list in the order
in which they are named here, and what a list holds beyond them does not count.
-/
def settingsOf? (names : List String) : Toml.Value → Option Toml.Entries
  | .table _ es => some es
  | .list items => some (names.zip items)
  | _ => none

/-- The configuration with one more group of settings. -/
def withGroup (c : Config) : String × Toml.Value → Option Config
  | ("slice", v) => do (← settingsOf? ["output_dir"] v).foldlM withSlice c
  | ("execution", v) => do
    (← settingsOf? ["max_parallel", "dry_run", "actions"] v).foldlM withExecution c
  | _ => none

/-- The actions that are carried out, or the first name that is no action's. -/
def enabledActions (c : Config) : Except ConfigError (List Action) :=
  c.actions.mapM fun name =>
    match Action.ofName? name with
    | some a => .ok a
    | none => .error (.unknownAction name)

/-- The configuration that a text describes. -/
def parse (text : String) : Except ConfigError Config := do
  let config ← match (Toml.read text).bind (·.foldlM withGroup default) with
    | some config => .ok config
    | none => .error .malformed
  let _ ← config.enabledActions
  return config

/-! ### Using -/

/-- The directory that host plans are written to by default. -/
def sliceDir (c : Config) (env : Environment) : Option String := c.outputDir.map (Path.expand env)

def shape : Shape Config :=
  .record "DeckhandConfig" true
    (.field "slice" .required
      (.record "SliceConfig" true
        (.field "output_dir" .required (.nullable .text) .done)
        (fun (outputDir, ()) => outputDir) (fun outputDir => (outputDir, ()))) <|
     .field "execution" .required
      (.record "ExecutionConfig" true
        (.field "max_parallel" .required (.integer .count) <|
         .field "dry_run" .required .flag <|
         .field "actions" .required .texts .done)
        (fun (maxParallel, dryRun, actions, ()) => (maxParallel, dryRun, actions))
        (fun (maxParallel, dryRun, actions) => (maxParallel, dryRun, actions, ()))) .done)
    (fun (outputDir, (maxParallel, dryRun, actions), ()) =>
      ⟨outputDir, maxParallel, dryRun, actions⟩)
    (fun c => (c.outputDir, (c.maxParallel, c.dryRun, c.actions), ()))

/-- What the command says about a run, over what the configuration says. -/
structure Overrides where
  dryRun : Bool
  /-- How many hosts may run at a time. -/
  jobs : Option (IntIn .count)
  steps : List String

/-- How a plan is run. -/
def runOptions (c : Config) (o : Overrides) : RunOptions :=
  ⟨o.dryRun || c.dryRun, o.jobs.getD c.maxParallel, o.steps⟩

end Config

end FleetPlan
