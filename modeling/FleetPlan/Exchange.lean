/-
What callers of an engine send and get back.
-/
import FleetPlan.HostPlan
import FleetPlan.Options
import FleetPlan.Report

namespace FleetPlan

open Json

/-- Asks for a plan that leads from one state to another. -/
structure ComputeRequest where
  topology : Snapshot .topology
  state : Snapshot .state
  options : PlanOptions

namespace ComputeRequest

def shape : Shape ComputeRequest :=
  .record "ComputePlanRequest" true
    (.field "topology" .required (Snapshot.shape .topology) <|
     .field "state" .required (Snapshot.shape .state) <|
     .field "options" (.defaulted .default) PlanOptions.shape .done)
    (fun (topology, state, options, ()) => ⟨topology, state, options⟩)
    (fun r => (r.topology, r.state, r.options, ()))

end ComputeRequest

structure ComputeResponse where
  plan : Plan

namespace ComputeResponse

def shape : Shape ComputeResponse :=
  .record "ComputePlanResponse" true (.field "plan" .required Plan.shape .done)
    (fun (plan, ()) => ⟨plan⟩) (fun r => (r.plan, ()))

end ComputeResponse

/-- Asks for a plan to be run. -/
structure ExecuteRequest where
  plan : Plan
  options : RunOptions

namespace ExecuteRequest

def shape : Shape ExecuteRequest :=
  .record "ExecutePlanRequest" true
    (.field "plan" .required Plan.shape <|
     .field "options" (.defaulted .default) RunOptions.shape .done)
    (fun (plan, options, ()) => ⟨plan, options⟩)
    (fun r => (r.plan, r.options, ()))

end ExecuteRequest

structure ExecuteResponse where
  report : Report

namespace ExecuteResponse

def shape : Shape ExecuteResponse :=
  .record "ExecutePlanResponse" true (.field "report" .required Report.shape .done)
    (fun (report, ()) => ⟨report⟩) (fun r => (r.report, ()))

end ExecuteResponse

/-- Asks what is there on a host. -/
structure InspectRequest where
  host : Host
  /-- Which of the inspectors is to look. -/
  runtime : String

namespace InspectRequest

def shape : Shape InspectRequest :=
  .record "InspectStateRequest" true
    (.field "host" .required Host.shape <|
     .field "runtime" .required .text .done)
    (fun (host, runtime, ()) => ⟨host, runtime⟩)
    (fun r => (r.host, r.runtime, ()))

end InspectRequest

structure InspectResponse where
  state : Snapshot .state

namespace InspectResponse

def shape : Shape InspectResponse :=
  .record "InspectStateResponse" true (.field "state" .required (Snapshot.shape .state) .done)
    (fun (state, ()) => ⟨state⟩) (fun r => (r.state, ()))

end InspectResponse

end FleetPlan
