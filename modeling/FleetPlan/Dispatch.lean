/-
Running a sliced plan.

The global steps run first.  A host whose plan waits for a global step that did
not succeed is held back, and all its steps are recorded as skipped; the other
hosts run, none of them touching another.  The report lists the global steps and
then the hosts by their ids.

A run is a value here, and asks nothing of the system: hosts always get the workers
that they are to run on.  A system that has none left ends the run when the global
steps are through.  `Runner.performDispatch`, which tells the events of a run one
by one, has that end beside the refusals (`Halt.noWorkers`).
-/
import FleetPlan.Run.Steps
import FleetPlan.Slice.Basic

namespace FleetPlan

namespace Slice

/-- Why a sliced plan is not run at all. -/
def runError? (slice : Slice) (planId : String) : Option RunError :=
  match orderError? .fleet (slice.globalSteps.map .ofStep) with
  | some e => some e
  | none => slice.hostPlans.values.findSome? fun plan =>
    if plan.host.isGlobal then some (.missingHost planId) else orderError? plan.host plan.steps

/-- The global steps that a host plan waits for and that did not succeed. -/
def unmetGlobals (slice : Slice) (globals : Report) (plan : HostPlan) : List String :=
  let succeeded := (globals.steps.filter (·.status == .succeeded)).map (·.stepId)
  (slice.requiredGlobals plan).filter (!succeeded.contains ·)

end Slice

namespace HostPlan

/-- The report of a host plan that was held back. -/
def heldBack (plan : HostPlan) (planId : String) (unmet : List String) : Report :=
  let message := "global step(s) not completed: " ++ ", ".intercalate unmet
  .ofSteps planId (plan.steps.map fun step =>
    .skipped step.id plan.host .globalDependencyUnmet message)

/-- A host plan that is held back, `key` being the host it is filed under. -/
def holdBack (plan : HostPlan) (planId key : String) (unmet : List String) : Report × Trace :=
  let report := plan.heldBack planId unmet
  (report,
   [.logged ⟨.warn, .dispatch, "Not dispatching host " ++ Text.quoted key ++ ": global step(s) " ++
      ", ".intercalate unmet ++ " did not succeed"⟩,
    .started plan.host report.steps.length] ++
   report.steps.map .recorded ++ [.finished plan.host report])

end HostPlan

namespace Runner

variable (r : Runner)

/-- Runs the global steps; without any nothing happens. -/
def runGlobals (slice : Slice) (planId : String) : Report × Trace :=
  if slice.globalSteps.isEmpty then (.ofSteps planId [], [])
  else r.runSteps planId .fleet (slice.globalSteps.map .ofStep)

/-- How many hosts run at a time. -/
def workers (runnable : Nat) : Nat :=
  let limit := r.options.maxParallel.val.toNat
  if limit = 0 then runnable else min limit runnable

/-- Tells that hosts are about to run. -/
def announce (runnable : Nat) : Trace :=
  if runnable = 0 then []
  else [.logged ⟨.debug, .dispatch, "Dispatching " ++ toString runnable ++ " host plan(s) on " ++
    toString (r.workers runnable) ++ " worker(s)"⟩]

/-- Runs the parts of a plan in their order and merges what they report. -/
def runParts (slice : Slice) (planId : String) : Report × Trace :=
  let (globals, globalTrace) := r.runGlobals slice planId
  let judged := slice.hostPlans.entries.map fun (key, plan) =>
    (key, plan, slice.unmetGlobals globals plan)
  let held := (judged.filter (!·.2.2.isEmpty)).map fun (key, plan, unmet) =>
    (key, plan.holdBack planId key unmet)
  let runnable := (judged.filter (·.2.2.isEmpty)).map (·.2.1)
  let ran := runnable.map fun plan => (plan.host.id, r.runSteps planId plan.host plan.steps)
  let reports := Dict.ofList ((held ++ ran).map fun (key, report, _) => (key, report))
  (reports.values.foldl .merge globals,
   globalTrace ++ held.flatMap (·.2.2) ++ r.announce runnable.length ++ ran.flatMap (·.2.2))

/-- Runs a sliced plan, or refuses it before anything is done. -/
def dispatch (slice : Slice) (planId : String) : Except RunError (Report × Trace) :=
  match slice.runError? planId with
  | some e => .error e
  | none => .ok (r.runParts slice planId)

end Runner

end FleetPlan
