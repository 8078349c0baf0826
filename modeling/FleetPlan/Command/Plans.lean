/-
The commands that work on plans.
-/
import FleetPlan.Command.Documents
import FleetPlan.Command.Execution
import FleetPlan.Slice.Files

namespace FleetPlan

namespace CommandM

variable {m : Type → Type} [Monad m] [MonadFiles m]

/-- A plan and its parts. -/
def loadSlice (path : String) : CommandM m (Plan × Slice) := do
  let plan ← loadPlan path
  let slice ← within ("Cannot slice " ++ path) (plan.slice.mapError (⟨·.message, []⟩))
  log (slice.cutRecord plan.id)
  return (plan, slice)

/-- Checks that a plan can be cut and shows its parts. -/
def validate (path : String) : CommandM m Unit := do
  let (plan, slice) ← loadSlice path
  noticeUnlessQuiet fun t =>
    t.sliceLines plan.id slice ++
      [t.successLine (path ++ " is valid: " ++ toString slice.totalSteps ++ " steps, " ++
        toString slice.hostPlans.size ++ " hosts, " ++ toString slice.globalSteps.length ++
        " global")]

/-- Prints the id that a plan's content has. -/
def identify (path environment : String) : CommandM m Unit := do
  let plan ← loadPlan path
  let derived := plan.derivedId environment
  let s ← read
  if !plan.id.isEmpty && plan.id != derived && s.verbosity > 0 then
    notice [s.terminal.namedLine "declared id" plan.id]
  put (derived ++ "\n")

/-- Writes files into a directory, one after another, and gives their paths. -/
def writeFiles (directory : String) : List (String × String) → CommandM m (List String)
  | [] => return []
  | (name, content) :: rest => do
    let path := Path.join directory name
    withinFiles ("Could not write " ++ path) (← writeFile path content)
    return path :: (← writeFiles directory rest)

/-- Writes the files of a sliced plan; when two hosts share a file, nothing is written. -/
def writeSlice (directory planId : String) (slice : Slice) : CommandM m (List String) := do
  match slice.files planId with
  | .error clash => throw ⟨clash.message, []⟩
  | .ok files =>
    withinFiles ("Could not create " ++ directory) (← makeDirectory directory)
    let paths ← writeFiles directory files
    log ⟨.debug, .planCommand,
      "Wrote " ++ toString paths.length ++ " files to " ++ directory⟩
    return paths

/-- Cuts a plan, into files or to the output. -/
def slice (path : String) (outputDir : Option String) : CommandM m Unit := do
  let config ← loadConfig
  let s ← read
  let outputDir := outputDir.or (config.sliceDir s.environment)
  let (plan, slice) ← loadSlice path
  match outputDir with
  | some directory =>
    let paths ← writeSlice directory plan.id slice
    noticeUnlessQuiet fun t =>
      paths.map (t.namedLine "wrote") ++
        [t.successLine ("Sliced " ++ plan.id ++ " into " ++ toString slice.hostPlans.size ++
          " host plans")]
  | none => put ((Slice.shape.write slice).pretty ++ "\n")

/-- Runs a plan with all its hosts. -/
def apply (path : String) (run : RunArguments) (jobs : Option (Json.IntIn .count)) :
    CommandM m Unit := do
  let config ← loadConfig
  let plan ← loadPlan path
  let (result, trace) := config.runPlan (← read).now ⟨run.dryRun, jobs, run.steps⟩ plan
  showTrace trace
  let report ← MonadExcept.ofExcept result
  emitReport report run.output

end CommandM

end FleetPlan
