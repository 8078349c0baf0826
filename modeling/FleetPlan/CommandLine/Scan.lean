/-
Reading a command line.

The words are taken one by one.  A word is the name of a verb, an option, the
value that the option before it waits for, or an argument; after two hyphens
alone, every word is an argument.  Each verb has a `Level` of its own, on which
its options count: a switch or a single value may be given once a level, and of
an option given on several levels the innermost counts.

A value is looked at when the next word is, or the level ends.  This decides
whether a wrong value in front of a request for help is noticed: it is, unless a
verb comes between.
-/
import FleetPlan.CommandLine.Basic
import FleetPlan.Dict

namespace FleetPlan

open Json

/-- Why a command line asks for nothing to be done. -/
inductive Stop where
  /-- Help on a verb was asked for. -/
  | help (verb : Verb) (path : List String)
  | version (path : List String)
  /-- The command line cannot be understood. -/
  | misuse
  deriving DecidableEq, Repr

/-- What is still to be looked at. -/
inductive Pending where
  | nothing
  /-- An option that waits for its value. -/
  | option (p : Parameter)
  | value (p : Parameter) (value : String)
  deriving DecidableEq, Repr

/-- What has been read behind a verb. -/
structure Level where
  verb : Verb
  /-- The verbs up to this one, as a path. -/
  path : List String
  /-- What was given, in its order, with the values. -/
  given : List (Parameter × String)
  pending : Pending
  /-- The arguments that may still come. -/
  arguments : List Parameter
  deriving DecidableEq, Repr

namespace Level

def start (v : Verb) (path : List String) : Level := ⟨v, path, [], .nothing, v.arguments⟩

def has (l : Level) (p : Parameter) : Bool := l.given.any (·.1 == p)

def values (l : Level) (p : Parameter) : List String :=
  (l.given.filter (·.1 == p)).map (·.2)

def value? (l : Level) (p : Parameter) : Option String := (l.values p).head?

end Level

/-! ### Values -/

/-- The count that a word is: digits, perhaps behind a plus. -/
def readCount (word : String) : Option (IntIn .count) :=
  let digits := match word.toList with
    | '+' :: rest => rest
    | cs => cs
  if digits.isEmpty || !digits.all Char.isDigit then none
  else IntIn.ofInt? .count (digits.foldl (fun n c => 10 * n + (c.toNat - '0'.toNat)) 0 : Nat)

/-- Whether a parameter may have a value. -/
def Parameter.accepts : Parameter → String → Bool
  | .config, s | .outputDir, s | .output, s | .hostPlan, s | .file, s => !s.isEmpty
  | .jobs, s => (readCount s).isSome
  | .shell, s => (Shell.ofName? s).isSome
  | _, _ => true

namespace Level

/-- Notes that a parameter was given. -/
def note (l : Level) (p : Parameter) (value : String) : Except Stop Level :=
  let once := p.occurrence == .switch || p.occurrence == .single
  if (once && l.has p) || !p.accepts value then .error .misuse
  else .ok { l with given := l.given ++ [(p, value)] }

/-- Looks at what is pending. -/
def settle (l : Level) : Except Stop Level :=
  match l.pending with
  | .nothing => .ok l
  | .option _ => .error .misuse
  | .value p value => { l with pending := .nothing }.note p value

/-- Takes an option that is complete. -/
def take (l : Level) (p : Parameter) (value : String) : Except Stop Level := do
  let l ← l.settle
  match p with
  | .help => .error (.help l.verb l.path)
  | .version => .error (.version l.path)
  | p => l.note p value

/-- Takes an option whose value is the next word. -/
def await (l : Level) (p : Parameter) : Except Stop Level := do
  let l ← l.settle
  return { l with pending := .option p }

/-! ### Words -/

/-- An option by its long name, perhaps with a value behind an equals sign. -/
def readLong (l : Level) (word : List Char) : Except Stop Level :=
  let name := String.ofList (word.takeWhile (· ≠ '='))
  let attached := word.dropWhile (· ≠ '=')
  match l.verb.options.find? (·.long == name) with
  | none => .error .misuse
  | some o =>
    match attached, o.parameter.takesValue with
    | [], true => l.await o.parameter
    | _ :: value, true => l.take o.parameter (String.ofList value)
    | [], false => l.take o.parameter ""
    | _ :: _, false => .error .misuse

/-- Options by their letters; the value of one that takes a value may follow its letter. -/
def readLetters (l : Level) : List Char → Except Stop Level
  | [] => .ok l
  | c :: rest =>
    match l.verb.options.find? (·.letter == some c) with
    | none => .error .misuse
    | some o =>
      if o.parameter.takesValue then
        match rest with
        | [] => l.await o.parameter
        | '=' :: value => l.take o.parameter (String.ofList value)
        | value => l.take o.parameter (String.ofList value)
      else do
        let l ← l.take o.parameter ""
        readLetters l rest

/-- An argument. -/
def readArgument (l : Level) (word : String) : Except Stop Level :=
  match l.arguments with
  | [] => .error .misuse
  | p :: rest => do
    let l ← l.settle
    return { l with pending := .value p word, arguments := rest }

/-- A word that is not a verb. -/
def readWord (l : Level) (word : String) : Except Stop Level :=
  match word.toList, l.pending with
  | '-' :: '-' :: name, _ => l.readLong name
  | '-' :: c :: letters, _ => l.readLetters (c :: letters)
  | _, .option p => .ok { l with pending := .value p word }
  | _, _ => l.readArgument word

/-! ### Verbs -/

/-- Help on the verb that the words lead to; help itself is one of them, but leads no further. -/
def helpOn (v : Verb) (path : List String) : List String → Stop
  | [] => .help v path
  | word :: rest =>
    match Verb.named? v.followers word with
    | some f => helpOn f (path ++ [word]) rest
    | none =>
      if word = "help" && !v.followers.isEmpty && rest.isEmpty then .help v path else .misuse

/-- Whether the next word may be a verb. -/
def takesVerb (l : Level) : Bool :=
  match l.pending with
  | .option _ => false
  | _ => !l.verb.followers.isEmpty

end Level

/--
All levels of a command line, the innermost first.  `outer` are the levels around
the one that is being read, `plainly` says that all words are arguments.
-/
def scanFrom (outer : List Level) (l : Level) (plainly : Bool) :
    List String → Except Stop (List Level)
  | [] => .ok (l :: outer)
  | word :: rest =>
    if plainly then
      match l.readArgument word with
      | .error e => .error e
      | .ok l => scanFrom outer l true rest
    else if l.takesVerb && word = "help" then .error (Level.helpOn l.verb l.path rest)
    else match l.takesVerb, Verb.named? l.verb.followers word with
      | true, some v => scanFrom (l :: outer) (.start v (l.path ++ [word])) false rest
      | _, _ =>
        if word = "--" then scanFrom outer l true rest
        else match l.readWord word with
          | .error e => .error e
          | .ok l => scanFrom outer l false rest

/-! ### What the levels ask for -/

/-- The variable that names a configuration file when no option does. -/
def configVariable : String := "DECKHAND_CONFIG"

/-- A level at its end: nothing pending, nothing missing. -/
def Level.finish (env : Dict String) (l : Level) : Except Stop Level := do
  let l ← l.settle
  if !l.has .config && (env.get? configVariable).any (!Parameter.config.accepts ·) then
    throw .misuse
  if l.verb.required.all l.has then return l else throw .misuse

namespace Invocation

def runArguments (l : Level) : RunArguments :=
  ⟨l.has .dryRun, l.values .step, l.value? .output⟩

/-- What the innermost level asks for, if its verb asks for something. -/
def requestOf? (l : Level) : Option Request :=
  let file := (l.value? .file).getD ""
  match l.verb with
  | .validate => some (.validate file)
  | .identify => some (.identify file ((l.value? .environment).getD ""))
  | .slice => some (.slice file (l.value? .outputDir))
  | .apply => some (.apply file (runArguments l) ((l.value? .jobs).bind readCount))
  | .run => some (.runHostPlan ((l.value? .hostPlan).getD "") (runArguments l))
  | .completions => ((l.value? .shell).bind Shell.ofName?).map .completions
  | .program | .plan | .agent => none

/-- What the levels ask for, the innermost being the first. -/
def ofLevels? (env : Dict String) (levels : List Level) : Option Invocation := do
  let inner ← levels.head?
  let request ← requestOf? inner
  let verbosity := ((levels.find? (·.has .verbose)).map fun l => (l.values .verbose).length).getD 0
  let configPath := (levels.findSome? (·.value? .config)).or (env.get? configVariable)
  return ⟨verbosity, levels.any (·.has .quiet), configPath, request⟩

/-- What a command line asks for, the name of the program left out. -/
def read (env : Dict String) (words : List String) : Except Stop Invocation := do
  let program := Level.start .program [Verb.program.name]
  let levels ← scanFrom [] program false words
  let levels ← levels.mapM (Level.finish env)
  match ofLevels? env levels with
  | some invocation => return invocation
  | none => throw .misuse

end Invocation

end FleetPlan
