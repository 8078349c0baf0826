/-
Cutting a plan.

A plan can be cut when its step ids are distinct and every dependency stays where
its step can wait for it: on the same host, or, for a host's step, among the
global steps.  `Plan.sliceError?` finds the first violation, and `Plan.cut` says
what the parts are when there is none.  A global step may not wait for a host,
because all global steps run before any host is given its plan.
-/
import FleetPlan.Slice.Basic

namespace FleetPlan

/-- Why a plan cannot be cut. -/
inductive SliceError where
  | duplicateStep (plan step : String)
  | unknownStep (step dependency : String)
  | crossHost (step host dependency dependencyHost : String)
  | globalDependsOnHost (step dependency dependencyHost : String)
  deriving DecidableEq, Repr

namespace SliceError

def message : SliceError → String
  | duplicateStep plan step =>
    "plan " ++ Text.quoted plan ++ " contains step " ++ Text.quoted step ++ " more than once"
  | unknownStep step dependency =>
    "step " ++ Text.quoted step ++ " depends on unknown step " ++ Text.quoted dependency
  | crossHost step host dependency dependencyHost =>
    "step " ++ Text.quoted step ++ " on host " ++ Text.quoted host ++ " depends on step " ++
      Text.quoted dependency ++ " on host " ++ Text.quoted dependencyHost ++
      " (cross-host dependencies are not allowed)"
  | globalDependsOnHost step dependency dependencyHost =>
    "global step " ++ Text.quoted step ++ " depends on step " ++ Text.quoted dependency ++
      " on host " ++ Text.quoted dependencyHost ++ " (global steps cannot wait on host steps)"

end SliceError

namespace Plan

/-- The step of this id, the first one if there are several. -/
def step? (plan : Plan) (id : String) : Option Step := plan.steps.find? (·.id == id)

/-- The global steps by index and id. -/
def globalSteps (plan : Plan) : List Step := Step.sort (plan.steps.filter (·.isGlobal))

/-- The steps that belong to hosts, in the order of the plan. -/
def hostSteps (plan : Plan) : List Step := plan.steps.filter (!·.isGlobal)

/-! ### Whether the plan can be cut -/

/-- What is wrong with one dependency of a step. -/
def dependencyError? (plan : Plan) (s : Step) (dependency : String) : Option SliceError :=
  match plan.step? dependency with
  | none => some (.unknownStep s.id dependency)
  | some d =>
    if d.host.id = s.host.id then none
    else if s.isGlobal then some (.globalDependsOnHost s.id dependency d.host.id)
    else if d.isGlobal then none
    else some (.crossHost s.id s.host.id dependency d.host.id)

/-- The first violation: repeated ids, then the global steps, then the hosts' steps. -/
def sliceError? (plan : Plan) : Option SliceError :=
  match Names.firstRepeated? [] (plan.steps.map (·.id)) with
  | some id => some (.duplicateStep plan.id id)
  | none =>
    (plan.globalSteps ++ plan.hostSteps).findSome? fun s =>
      s.dependsOn.findSome? (plan.dependencyError? s)

/-! ### The parts -/

/-- Whether an id is that of a global step. -/
def isGlobalStep (plan : Plan) (id : String) : Bool := (plan.step? id).any (·.isGlobal)

/-- The dependencies that stay in the host plan. -/
def localDependencies (plan : Plan) (s : Step) : List String :=
  Names.sorted (s.dependsOn.filter (!plan.isGlobalStep ·))

/-- The dependencies that whoever hands out the host plan waits for. -/
def globalDependencies (plan : Plan) (s : Step) : List String :=
  Names.sorted (s.dependsOn.filter (plan.isGlobalStep ·))

/-- A host's step as it stands in the host plan. -/
def hostStep (plan : Plan) (s : Step) : HostStep :=
  { HostStep.ofStep s with dependsOn := plan.localDependencies s }

/-- The host plan of the first step's host, made of these steps. -/
def hostPlanOf (plan : Plan) (host : Host) (steps : List Step) : HostPlan :=
  ⟨schemaVersion, plan.id, host, HostStep.sort (steps.map plan.hostStep), .empty⟩

/-- Each host with its plan, by host id. -/
def hostPlans (plan : Plan) : List (String × HostPlan) :=
  (Names.sorted (plan.hostSteps.map (·.host.id))).filterMap fun id =>
    let steps := plan.hostSteps.filter (·.host.id == id)
    steps.head?.map fun first => (id, plan.hostPlanOf first.host steps)

/-- The parts of a plan that can be cut. -/
def cut (plan : Plan) : Slice where
  hostPlans := Dict.ofList plan.hostPlans
  globalSteps := plan.globalSteps
  globalStepIds := plan.globalSteps.map (·.id)
  globalRefs := Dict.ofList <| plan.hostSteps.filterMap fun s =>
    let refs := plan.globalDependencies s
    if refs.isEmpty then none else some (s.id, refs)

/-- The parts of a plan, or why there are none. -/
def slice (plan : Plan) : Except SliceError Slice :=
  match plan.sliceError? with
  | some e => .error e
  | none => .ok plan.cut

end Plan

end FleetPlan
