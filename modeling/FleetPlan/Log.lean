/-
Log records.

What the program tells while it works, beside its results.  A record has a level
and the part of the program that it comes from; how much of it is shown is
decided where it is shown.
-/

namespace FleetPlan

/-- Levels, the gravest first. -/
inductive LogLevel where
  | error
  | warn
  | info
  | debug
  | trace
  deriving DecidableEq, Repr

namespace LogLevel

/-- The rank of a level: a graver one has a lower rank. -/
def rank : LogLevel → Nat
  | error => 0
  | warn => 1
  | info => 2
  | debug => 3
  | trace => 4

/-- Whether a record of the first level is shown when the second is the limit. -/
def shownAt (level limit : LogLevel) : Bool := level.rank ≤ limit.rank

def name : LogLevel → String
  | error => "ERROR"
  | warn => "WARN"
  | info => "INFO"
  | debug => "DEBUG"
  | trace => "TRACE"

end LogLevel

/-- The part of the program that a record comes from. -/
inductive LogSource where
  | slice
  | executor
  | dispatch
  | engine
  | config
  | paths
  | console
  | planCommand
  | agentCommand
  deriving DecidableEq, Repr

namespace LogSource

/-- The name under which records are shown. -/
def name : LogSource → String
  | slice => "hostplan::slice"
  | executor => "hostplan::executor"
  | dispatch => "hostplan::dispatch"
  | engine => "hostplan::engine"
  | config => "deckhand::config"
  | paths => "deckhand::paths"
  | console => "deckhand::engine::executor"
  | planCommand => "deckhand::commands::plan"
  | agentCommand => "deckhand::commands::agent"

end LogSource

structure LogRecord where
  level : LogLevel
  source : LogSource
  message : String
  deriving DecidableEq, Repr

end FleetPlan
