/-
The command line: what can be asked for, and how it is written.

A `Verb` is a command or a part of one; the tables say which options, arguments
and further verbs may follow it.  An `Invocation` is what a command line that was
understood asks for.
-/
import FleetPlan.Json.Integer

namespace FleetPlan

open Json

/-! ### What can be asked for -/

/-- What the commands that run steps are told. -/
structure RunArguments where
  dryRun : Bool
  /-- The steps to run; when there are none, all of them. -/
  steps : List String
  /-- Where the report goes instead of to standard output. -/
  output : Option String
  deriving DecidableEq, Repr

/-- The shells that completions can be asked for. -/
inductive Shell where
  | bash
  | elvish
  | fish
  | powershell
  | zsh
  deriving DecidableEq, Repr

namespace Shell

def all : List Shell := [bash, elvish, fish, powershell, zsh]

def name : Shell → String
  | bash => "bash"
  | elvish => "elvish"
  | fish => "fish"
  | powershell => "powershell"
  | zsh => "zsh"

def ofName? (name : String) : Option Shell := all.find? (·.name == name)

end Shell

inductive Request where
  | validate (file : String)
  | identify (file environment : String)
  | slice (file : String) (outputDir : Option String)
  | apply (file : String) (run : RunArguments) (jobs : Option (IntIn .count))
  | runHostPlan (file : String) (run : RunArguments)
  | completions (shell : Shell)
  deriving DecidableEq, Repr

structure Invocation where
  verbosity : Nat
  quiet : Bool
  configPath : Option String
  request : Request
  deriving DecidableEq, Repr

/-! ### How it is written -/

inductive Verb where
  | program
  | plan
  | validate
  | identify
  | slice
  | apply
  | agent
  | run
  | completions
  deriving DecidableEq, Repr

/-- What an option or an argument gives a value to. -/
inductive Parameter where
  | verbose
  | quiet
  | config
  | environment
  | outputDir
  | dryRun
  | step
  | output
  | jobs
  | hostPlan
  | file
  | shell
  /-- Asks for help instead. -/
  | help
  /-- Asks for the version instead. -/
  | version
  deriving DecidableEq, Repr

/-- How a parameter may be given. -/
inductive Occurrence where
  /-- Once, without a value. -/
  | switch
  /-- Any number of times, without a value. -/
  | counter
  /-- Once, with a value. -/
  | single
  /-- Any number of times, each time with a value. -/
  | several
  deriving DecidableEq, Repr

namespace Parameter

def occurrence : Parameter → Occurrence
  | verbose => .counter
  | quiet | dryRun | help | version => .switch
  | step => .several
  | config | environment | outputDir | output | jobs | hostPlan | file | shell => .single

def takesValue (p : Parameter) : Bool := p.occurrence == .single || p.occurrence == .several

end Parameter

/-- An option by its long name and, if it has one, its letter. -/
structure OptionName where
  letter : Option Char
  long : String
  parameter : Parameter
  deriving DecidableEq, Repr

namespace Verb

def name : Verb → String
  | program => "deckhand"
  | plan => "plan"
  | validate => "validate"
  | identify => "id"
  | slice => "slice"
  | apply => "apply"
  | agent => "agent"
  | run => "run"
  | completions => "completions"

/-- The verbs one of which has to follow. -/
def followers : Verb → List Verb
  | program => [plan, agent, completions]
  | plan => [validate, identify, slice, apply]
  | agent => [run]
  | _ => []

/-- The options that may stand behind every verb. -/
def commonOptions : List OptionName := [
  ⟨some 'v', "verbose", .verbose⟩,
  ⟨some 'q', "quiet", .quiet⟩,
  ⟨none, "config", .config⟩,
  ⟨some 'h', "help", .help⟩,
  ⟨some 'V', "version", .version⟩]

/-- The options of the verbs that run steps. -/
def runOptions : List OptionName := [
  ⟨none, "dry-run", .dryRun⟩,
  ⟨none, "step", .step⟩,
  ⟨some 'o', "output", .output⟩]

def options (v : Verb) : List OptionName :=
  commonOptions ++ match v with
    | identify => [⟨some 'e', "environment", .environment⟩]
    | slice => [⟨some 'o', "output-dir", .outputDir⟩]
    | apply => runOptions ++ [⟨some 'j', "jobs", .jobs⟩]
    | run => runOptions ++ [⟨none, "hostplan", .hostPlan⟩]
    | _ => []

/-- The arguments, in their order. -/
def arguments : Verb → List Parameter
  | validate | identify | slice | apply => [.file]
  | completions => [.shell]
  | _ => []

/-- What has to be given. -/
def required : Verb → List Parameter
  | run => [.hostPlan]
  | v => v.arguments

def named? (vs : List Verb) (name : String) : Option Verb := vs.find? (·.name == name)

end Verb

end FleetPlan
