/-
What is shown on a terminal.

A slice and a report are each shown as lines in a frame, the progress of a run as
one line an event.  Everything here is a list of lines; where they go and whether
they are shown at all is decided elsewhere.
-/
import FleetPlan.Run.Basic
import FleetPlan.Slice.Basic
import FleetPlan.Terminal

namespace FleetPlan

namespace Terminal

variable (t : Terminal)

/-! ### Frames -/

/-- The line that closes a frame, between two corners. -/
def rule (left right : String) : String :=
  left ++ String.ofList (List.replicate 53 '─') ++ right

/-- How many characters of a plan's id are shown. -/
def idWidth : Nat := 24

/-- The line that opens a frame. -/
def heading (title planId : String) : String :=
  "┌─ " ++ t.paint [.bold] title ++ " " ++ Text.shortId idWidth planId ++ " " ++
    String.ofList (List.replicate 21 '─') ++ "┐"

/-- A number in a summary. -/
def count (es : List Emphasis) (n : Nat) : String := t.paint es (toString n)

/-! ### Slices -/

def globalStepLine (s : Step) : String :=
  "│   " ++ t.paint [.cyan] "◆" ++ " " ++ Text.padRight 30 s.id ++ " " ++
    t.paint [.dimmed] s.action.name

def hostStepLine (s : HostStep) : String :=
  let waits := if s.dependsOn.isEmpty then "" else "after " ++ ", ".intercalate s.dependsOn
  "│   " ++ t.paint [.green] "•" ++ " " ++ Text.padRight 30 s.id ++ " " ++
    Text.padRight 16 s.action.name ++ " " ++ t.paint [.dimmed] waits

def hostPlanLines (slice : Slice) (key : String) (plan : HostPlan) : List String :=
  let required := slice.requiredGlobals plan
  let waits :=
    if required.isEmpty then ""
    else t.paint [.dimmed] (" (waits on " ++ ", ".intercalate required ++ ")")
  ("│ " ++ t.paint [.bold] key ++ waits) :: plan.steps.map t.hostStepLine ++ ["│"]

/-- The parts of a plan. -/
def sliceLines (planId : String) (slice : Slice) : List String :=
  let globals :=
    if slice.globalSteps.isEmpty then []
    else ("│ " ++ t.paint [.bold] "Global steps") ::
      slice.globalSteps.map t.globalStepLine ++ ["│"]
  ["", t.heading "Plan" planId, "│"] ++ globals ++
    slice.hostPlans.entries.flatMap (fun (key, plan) => t.hostPlanLines slice key plan) ++
    [rule "├" "┤",
     "│ Summary: " ++ t.count [.bold] slice.totalSteps ++ " steps (" ++
       t.count [.cyan] slice.globalSteps.length ++ " global, " ++
       t.count [.green] slice.hostPlans.size ++ " hosts)",
     rule "└" "┘"]

/-! ### Reports -/

/-- A sign for what became of a step. -/
def symbol : StepStatus → String
  | .succeeded => t.paint [.green] "✓"
  | .failed => t.paint [.red] "✗"
  | .skipped => t.paint [.yellow] "-"
  | .pending | .running => t.paint [.dimmed] "?"

/-- A host as it is shown. -/
def hostName (h : Host) : String := if h.isGlobal then "(global)" else h.id

/-- Why a step did not succeed, as it is shown. -/
def detail : Option StepError → String
  | none => ""
  | some e => if e.code.isEmpty then e.message else e.code ++ ": " ++ e.message

def recordLine (r : StepRecord) : String :=
  "│   " ++ t.symbol r.status ++ " " ++ Text.padRight 24 r.stepId ++ " " ++
    t.column [.dimmed] 16 (hostName r.host) ++ " " ++ t.paint [.dimmed] (detail r.error)

def statusLabel (s : RunStatus) : String :=
  match s with
  | .succeeded => t.paint [.bold, .green] s.name
  | .failed => t.paint [.bold, .red] s.name
  | .incomplete => t.paint [.bold, .yellow] s.name

/-- What became of a run. -/
def reportLines (report : Report) : List String :=
  let s := report.summary
  ["", t.heading "Report" report.planId, "│"] ++ report.steps.map t.recordLine ++
    ["│", rule "├" "┤",
     "│ " ++ t.statusLabel report.status ++ ": " ++ t.count [.bold] s.total ++ " steps, " ++
       t.count [.green] s.succeeded ++ " succeeded, " ++ t.count [.red] s.failed ++ " failed, " ++
       t.count [.yellow] s.skipped ++ " skipped",
     rule "└" "┘"]

/-! ### Progress -/

def startLine (host : Host) (steps : Nat) : String :=
  "  " ++ t.paint [.cyan] "→" ++ " " ++ t.paint [.bold] (hostName host) ++ " (" ++
    toString steps ++ " steps)"

def progressLine (r : StepRecord) : String :=
  let code := match r.code? with
    | some c => " [" ++ c ++ "]"
    | none => ""
  "    " ++ t.symbol r.status ++ " " ++ t.paint [.dimmed] (hostName r.host) ++ ":" ++ r.stepId ++
    t.paint [.dimmed] code

/-! ### Messages -/

def successLine (message : String) : String := t.paint [.green] "✓" ++ " " ++ message

def warningLine (message : String) : String := t.paint [.yellow] "⚠" ++ " " ++ message

/-- A value with its name. -/
def namedLine (name value : String) : String := "  " ++ t.paint [.dimmed] name ++ ": " ++ value

def levelEmphasis : LogLevel → Emphasis
  | .error => .red
  | .warn => .yellow
  | .info => .green
  | .debug => .blue
  | .trace => .cyan

/-- A log record; what follows a line break in it is indented. -/
def logLine (r : LogRecord) : String :=
  t.paint [.grey] "[" ++ t.column [levelEmphasis r.level] 5 r.level.name ++ " " ++ r.source.name ++
    t.paint [.grey] "]" ++ " " ++ r.message.replace "\n" "\n    "

end Terminal

namespace Failure

/-- A cause with its number, if it is one of several; what follows a line break is indented. -/
def causeLine (number : Option Nat) (cause : String) : String :=
  match number with
  | none => "    " ++ cause.replace "\n" "\n    "
  | some n => Text.padLeft 5 (toString n) ++ ": " ++ cause.replace "\n" "\n       "

/-- The failure as it ends a command. -/
def lines (f : Failure) : List String :=
  let causes := match f.causes with
    | [] => []
    | [cause] => ["", "Caused by:", causeLine none cause]
    | several => "" :: "Caused by:" :: several.mapIdx fun n cause => causeLine (some n) cause
  ("Error: " ++ f.message) :: causes

end Failure

end FleetPlan
