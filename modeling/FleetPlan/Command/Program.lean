/-
The program as a whole: from the words of its command line to how it ended.
-/
import FleetPlan.Command.HostPlans
import FleetPlan.Command.Plans
import FleetPlan.CommandLine.Scan
import FleetPlan.CommandLine.Usage

namespace FleetPlan

variable {m : Type → Type} [Monad m] [MonadFiles m]

namespace Request

/-- The command that does what was asked for. -/
def command : Request → CommandM m Unit
  | validate file => CommandM.validate file
  | identify file environment => CommandM.identify file environment
  | slice file outputDir => CommandM.slice file outputDir
  | apply file run jobs => CommandM.apply file run jobs
  | runHostPlan file run => CommandM.runHostPlan file run
  | completions shell => CommandM.put shell.script

end Request

namespace Stop

/-- How the program ends when nothing is to be done. -/
def outcome : Stop → Outcome
  | help verb path => ⟨0, ⟨verb.usage path, ""⟩⟩
  | version path => ⟨0, ⟨Verb.versionLine path, ""⟩⟩
  | misuse => ⟨2, ⟨"", Verb.program.usage [Verb.program.name]⟩⟩

end Stop

/-- Runs the program on the words of its command line, its own name left out. -/
def runProgram (environment : Environment) (now : String) (words : List String) : m Outcome :=
  match Invocation.read environment.settings words with
  | .error stop => return stop.outcome
  | .ok invocation =>
    invocation.request.command.outcome (.ofInvocation invocation environment now)

end FleetPlan
