/-
How commands are used, as text.
-/
import FleetPlan.CommandLine.Basic

namespace FleetPlan

namespace Parameter

/-- The value of a parameter in a usage line. -/
def placeholder : Parameter → String
  | config | file | output | hostPlan => "FILE"
  | outputDir => "DIR"
  | environment => "ENVIRONMENT"
  | step => "ID"
  | jobs => "JOBS"
  | shell => "SHELL"
  | verbose | quiet | dryRun | help | version => ""

end Parameter

namespace OptionName

/-- An option with its letter and its value. -/
def usage (o : OptionName) : String :=
  let letter := match o.letter with
    | some c => "-" ++ c.toString ++ ", "
    | none => "    "
  let value := if o.parameter.takesValue then " <" ++ o.parameter.placeholder ++ ">" else ""
  "  " ++ letter ++ "--" ++ o.long ++ value

end OptionName

namespace Verb

def version : String := "0.1.0"

def versionLine (path : List String) : String := "-".intercalate path ++ " " ++ version ++ "\n"

/-- How a verb is used, and with which options. -/
def usage (v : Verb) (path : List String) : String :=
  let operands :=
    if v.followers.isEmpty then v.arguments.map fun p => "<" ++ p.placeholder ++ ">"
    else ["<" ++ "|".intercalate (v.followers.map name) ++ ">"]
  "\n".intercalate
    (("Usage: " ++ " ".intercalate (path ++ ["[OPTIONS]"] ++ operands)) :: "" ::
      "Options:" :: v.options.map OptionName.usage) ++ "\n"

end Verb

namespace Shell

/-- A script that completes the first verb. -/
def script (s : Shell) : String :=
  let program := Verb.program.name
  let verbs := Verb.program.followers.map Verb.name
  match s with
  | bash => "complete -W \"" ++ " ".intercalate verbs ++ "\" " ++ program ++ "\n"
  | zsh => "compctl -k \"(" ++ " ".intercalate verbs ++ ")\" " ++ program ++ "\n"
  | fish => "complete -c " ++ program ++ " -f -a \"" ++ " ".intercalate verbs ++ "\"\n"
  | elvish =>
    "set edit:completion:arg-completer[" ++ program ++ "] = \x7b|@words| put " ++
      " ".intercalate verbs ++ " \x7d\n"
  | powershell =>
    "Register-ArgumentCompleter -Native -CommandName " ++ program ++ " -ScriptBlock \x7b " ++
      ", ".intercalate (verbs.map fun v => "\"" ++ v ++ "\"") ++ " \x7d\n"

end Shell

end FleetPlan
