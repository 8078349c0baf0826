/-
What a run is made of.

An executor carries out one step and answers with the lines it put out or with a
failure.  It is a function of the step and its context, so a run is a value: its
report and the list of events in the order they happened.
-/
import FleetPlan.HostPlan
import FleetPlan.Log
import FleetPlan.Options
import FleetPlan.Report

namespace FleetPlan

/-! ### Failures -/

/-- Why something failed: what was being done, and what that failed of, outermost first. -/
structure Failure where
  message : String
  causes : List String
  deriving DecidableEq, Repr, Inhabited

namespace Failure

/-- A failure of the given messages, outermost first; without any the message is empty. -/
def ofChain : List String → Failure
  | [] => ⟨"", []⟩
  | m :: rest => ⟨m, rest⟩

def chain (f : Failure) : List String := f.message :: f.causes

/-- The failure in one line. -/
def line (f : Failure) : String := ": ".intercalate f.chain

/-- The failure of what was done for the sake of something else. -/
def within (f : Failure) (message : String) : Failure := ⟨message, f.chain⟩

end Failure

/-! ### Executors -/

/-- What an executor is told about the run. -/
structure RunContext where
  planId : String
  /-- Where the step runs; the fleet for a global step. -/
  host : Host
  dryRun : Bool

/-- Carries out a step. -/
abbrev Executor := HostStep → RunContext → Except Failure (List OutputLine)

/-- What carries out each action. -/
structure Registry (ε : Type) where
  get? : Action → Option ε

namespace Registry

variable {ε : Type}

def empty : Registry ε := ⟨fun _ => none⟩

/-- Puts something in charge of an action, in place of whatever was. -/
def register (r : Registry ε) (action : Action) (e : ε) : Registry ε :=
  ⟨fun a => if a = action then some e else r.get? a⟩

/-- The actions that something is in charge of, in the order of all actions. -/
def actions (r : Registry ε) : List Action := Action.all.filter fun a => (r.get? a).isSome

def isEmpty (r : Registry ε) : Bool := r.actions.isEmpty

/-- The actions as a listing. -/
def listing (r : Registry ε) : String :=
  "[" ++ ", ".intercalate (r.actions.map Action.title) ++ "]"

end Registry

/-! ### Events -/

/-- What happens during a run. -/
inductive RunEvent where
  /-- A list of steps is begun. -/
  | started (host : Host) (steps : Nat)
  /-- An executor is given a step. -/
  | called (step : HostStep) (context : RunContext)
  /-- What became of a step is known. -/
  | recorded (record : StepRecord)
  /-- A list of steps is through. -/
  | finished (host : Host) (report : Report)
  | logged (record : LogRecord)

abbrev Trace := List RunEvent

namespace Host

/-- The host in a log record. -/
def label (h : Host) : String :=
  if h.isGlobal then "global" else "host " ++ Text.quoted h.id

end Host

end FleetPlan
