/-
What commands have in common.

A command works on files through `MonadFiles`, prints, and may fail.  What it
prints goes either to its output, which holds its result and nothing else, or to
its notices.  Its `Setting` decides how much is noticed and in which colours.
-/
import FleetPlan.CommandLine.Basic
import FleetPlan.Display
import FleetPlan.Files.Basic

namespace FleetPlan

/-- What a command is given besides its arguments. -/
structure Setting where
  verbosity : Nat
  quiet : Bool
  configPath : Option String
  environment : Environment
  /-- The time that reports carry. -/
  now : String

namespace Setting

def ofInvocation (i : Invocation) (environment : Environment) (now : String) : Setting :=
  ⟨i.verbosity, i.quiet, i.configPath, environment, now⟩

def terminal (s : Setting) : Terminal := s.environment.terminal

/-- The last level of log records that are shown. -/
def logLimit (s : Setting) : LogLevel :=
  if s.quiet then .error
  else match s.verbosity with
    | 0 => .warn
    | 1 => .info
    | 2 => .debug
    | _ => .trace

/-- The lines that show a log record. -/
def logLines (s : Setting) (r : LogRecord) : List String :=
  if r.level.shownAt s.logLimit then [s.environment.logTerminal.logLine r] else []

/-- The lines that show an event of a run. -/
def eventLines (s : Setting) : RunEvent → List String
  | .started host steps => if s.quiet then [] else [s.terminal.startLine host steps]
  | .called _ _ => []
  | .recorded r => if s.quiet then [] else [s.terminal.progressLine r]
  | .finished host report =>
    s.logLines ⟨.info, .console,
      Terminal.hostName host ++ " finished: " ++ report.status.name⟩
  | .logged r => s.logLines r

end Setting

/-- What was printed. -/
structure Printed where
  output : String
  notices : String
  deriving DecidableEq, Repr

namespace Printed

def nothing : Printed := ⟨"", ""⟩

/-- The same with more lines of notices. -/
def notice (p : Printed) (lines : List String) : Printed :=
  { p with notices := lines.foldl (fun text line => text ++ line ++ "\n") p.notices }

end Printed

abbrev CommandM (m : Type → Type) := ReaderT Setting (ExceptT Failure (StateT Printed m))

namespace CommandM

variable {m : Type → Type} [Monad m]

/-! ### Printing -/

def put (text : String) : CommandM m Unit :=
  modify fun p => { p with output := p.output ++ text }

def notice (lines : List String) : CommandM m Unit := modify (·.notice lines)

/-- Notices that a quiet command leaves out. -/
def noticeUnlessQuiet (lines : Terminal → List String) : CommandM m Unit := do
  let s ← read
  if !s.quiet then notice (lines s.terminal)

def log (r : LogRecord) : CommandM m Unit := do
  notice ((← read).logLines r)

/-- Shows what happened during a run. -/
def showTrace (trace : Trace) : CommandM m Unit := do
  let s ← read
  notice (trace.flatMap s.eventLines)

/-! ### Failing -/

/-- Goes on with a value, or fails of what was done for the sake of it. -/
def within {α : Type} (message : String) : Except Failure α → CommandM m α
  | .ok a => pure a
  | .error f => throw (f.within message)

/-- Goes on after an access to files, or fails of it. -/
def withinFiles {α : Type} (message : String) : Except FileError α → CommandM m α
  | .ok a => pure a
  | .error e => throw ⟨message, [e.message]⟩

end CommandM

/-- How a command ended. -/
structure Outcome where
  exitCode : Nat
  printed : Printed
  deriving DecidableEq, Repr

namespace CommandM

variable {m : Type → Type} [Monad m]

/-- Runs a command to its end. -/
def outcome (command : CommandM m Unit) (s : Setting) : m Outcome := do
  let (result, printed) ← ((command.run s).run).run .nothing
  match result with
  | .ok _ => return ⟨0, printed⟩
  | .error f => return ⟨1, printed.notice f.lines⟩

end CommandM

end FleetPlan
