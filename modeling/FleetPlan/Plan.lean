/-
Plans.

A plan is a list of steps, each for one host or for the fleet as a whole.  The
index of a step says where it comes in the whole plan, its id breaks ties, and
`dependsOn` names the steps that have to succeed first.
-/
import FleetPlan.Action
import FleetPlan.Host
import FleetPlan.Resource

namespace FleetPlan

open Json

/-- The version of the documents this library reads and writes. -/
def schemaVersion : String := "v1"

/-- The position of a step in a plan. -/
abbrev StepIndex := IntIn .signed64

/-- Whether one step comes before another, or has the same index and id. -/
def stepOrder (index₁ : StepIndex) (id₁ : String) (index₂ : StepIndex) (id₂ : String) : Bool :=
  index₁.val < index₂.val || (index₁.val == index₂.val && decide (id₁ ≤ id₂))

structure Step where
  id : String
  index : StepIndex
  action : Action
  target : ResourceRef
  host : Host
  inputs : Option Payload
  dependsOn : List String
  annotations : Annotations
  deriving Inhabited

namespace Step

/-- A step without target, inputs and dependencies. -/
def bare (id : String) (index : StepIndex) (action : Action) (host : Host) : Step :=
  ⟨id, index, action, .blank, host, none, [], .empty⟩

def isGlobal (s : Step) : Bool := s.host.isGlobal

/-- Whether a step comes before another, or has the same index and id. -/
def le (a b : Step) : Bool := stepOrder a.index a.id b.index b.id

/-- The steps by index and id, those equal in both in the order they had. -/
def sort (steps : List Step) : List Step := steps.mergeSort le

def actionShape : Shape Action := .choice Action.all Action.name

def shape : Shape Step :=
  .record "PlanStep" true
    (.field "id" .required .text <|
     .field "index" .required (.integer .signed64) <|
     .field "action" .required actionShape <|
     .field "target" .required ResourceRef.shape <|
     .field "host" .required Host.shape <|
     .field "inputs" (.optional none) (.nullable .payload) <|
     .field "dependsOn" .unlessNil .texts <|
     .field "meta" .unlessBare .annotations .done)
    (fun (id, index, action, target, host, inputs, dependsOn, annotations, ()) =>
      ⟨id, index, action, target, host, inputs, dependsOn, annotations⟩)
    (fun s => (s.id, s.index, s.action, s.target, s.host, s.inputs, s.dependsOn, s.annotations, ()))

end Step

structure Plan where
  version : String
  id : String
  summary : String
  steps : List Step
  annotations : Annotations
  deriving Inhabited

namespace Plan

/-- A plan of the current version without steps. -/
def bare (id : String) : Plan := ⟨schemaVersion, id, "", [], .empty⟩

def shape : Shape Plan :=
  .record "Plan" true
    (.field "version" .required .text <|
     .field "id" .required .text <|
     .field "summary" .unlessEmpty .text <|
     .field "steps" .required (.list Step.shape) <|
     .field "meta" .unlessBare .annotations .done)
    (fun (version, id, summary, steps, annotations, ()) =>
      ⟨version, id, summary, steps, annotations⟩)
    (fun p => (p.version, p.id, p.summary, p.steps, p.annotations, ()))

end Plan

end FleetPlan
