/-
What a step does.

The actions are listed once, in the order that every registry and every message
follows.  Six of them take inputs of a form this library knows.
-/
import FleetPlan.Text.Quoted

namespace FleetPlan

inductive Action where
  | create
  | update
  | delete
  | noop
  | renderCompose
  | applyCompose
  | rollout
  | build
  | migrate
  | healthCheck
  deriving DecidableEq, Repr, Inhabited

namespace Action

/-- All actions in their order. -/
def all : List Action :=
  [create, update, delete, noop, renderCompose, applyCompose, rollout, build, migrate, healthCheck]

/-- The name in documents, on the command line and in the configuration. -/
def name : Action → String
  | create => "create"
  | update => "update"
  | delete => "delete"
  | noop => "noop"
  | renderCompose => "render_compose"
  | applyCompose => "apply_compose"
  | rollout => "rollout"
  | build => "build"
  | migrate => "migrate"
  | healthCheck => "health_check"

/-- The name in a listing of a registry. -/
def title : Action → String
  | create => "Create"
  | update => "Update"
  | delete => "Delete"
  | noop => "Noop"
  | renderCompose => "RenderCompose"
  | applyCompose => "ApplyCompose"
  | rollout => "Rollout"
  | build => "Build"
  | migrate => "Migrate"
  | healthCheck => "HealthCheck"

/-- The action of this name. -/
def ofName? (s : String) : Option Action := all.find? (·.name == s)

theorem ofName?_name (a : Action) : ofName? a.name = some a := by cases a <;> decide

/-- What is said of a name that is no action's. -/
def unknownMessage (s : String) : String := "unknown step action: " ++ Text.quoted s

end Action

end FleetPlan
