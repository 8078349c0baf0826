/-
Reading what commands work on, and writing what they made.
-/
import FleetPlan.Codec
import FleetPlan.Command.Basic
import FleetPlan.Config.Location

namespace FleetPlan

namespace CommandM

variable {m : Type → Type} [Monad m] [MonadFiles m]

def readInput (path : String) : CommandM m Octets := do
  withinFiles ("Could not read " ++ path) (← readFile path)

def loadPlan (path : String) : CommandM m Plan := do
  let data ← readInput path
  within ("Invalid plan " ++ path) ((Plan.decode data).mapError (⟨·.message, []⟩))

/-- Reads a host plan; what is wrong with it is said with the plan's id, if that can be read. -/
def loadHostPlan (path : String) : CommandM m HostPlan := do
  let data ← readInput path
  let planId := (HostPlan.peekPlanId data).getD ""
  within ("Invalid host plan " ++ path) ((HostPlan.decode data planId).mapError (⟨·.message, []⟩))

/-! ### The configuration -/

/-- The configuration in a file. -/
def readConfig (path : String) : CommandM m Config := do
  let data ← readInput path
  match Text.ofOctets? data with
  | none => throw ⟨"Could not read " ++ path, ["stream did not contain valid UTF-8"]⟩
  | some text => within ("Invalid config " ++ path) ((Config.parse text).mapError (·.failure))

/-- The configuration: a file that was named has to be there, any other need not be. -/
def loadConfig : CommandM m Config := do
  let s ← read
  match s.configPath with
  | some path =>
    if ← isThere path then readConfig path
    else throw ⟨"Config file not found: " ++ path, []⟩
  | none =>
    let (directory, told) ← MonadExcept.ofExcept (Config.directory s.environment)
    log told
    let path := Config.fileIn directory
    if ← isThere path then readConfig path
    else
      log ⟨.debug, .config, "No config at " ++ path ++ ", using defaults"⟩
      return .default

/-! ### Reports -/

/-- Shows a report and writes it out; the command fails if the run failed. -/
def emitReport (report : Report) (path : Option String) : CommandM m Unit := do
  noticeUnlessQuiet (·.reportLines report)
  let document := (Report.shape.write report).pretty ++ "\n"
  match path with
  | some path =>
    withinFiles ("Could not write report to " ++ path) (← writeFile path document)
    noticeUnlessQuiet fun t => [t.successLine ("Report written to " ++ path)]
  | none => put document
  match report.status with
  | .succeeded => return ()
  | .incomplete =>
    notice [(← read).terminal.warningLine ("Plan " ++ report.planId ++ " finished partially")]
  | .failed => throw ⟨"Plan " ++ report.planId ++ " failed", []⟩

end CommandM

end FleetPlan
