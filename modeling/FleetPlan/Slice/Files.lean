/-
The files that a sliced plan is written to.

Each host plan has a file named for its host, and the global steps share one.  A
name keeps only the characters that are safe in file names, so two hosts may come
to the same name; then nothing is written at all.
-/
import FleetPlan.Codec
import FleetPlan.Slice.Basic

namespace FleetPlan

open Json

/-- Two hosts whose plans would be written to one file. -/
structure FileClash where
  first : String
  second : String
  file : String
  deriving DecidableEq, Repr

namespace FileClash

def message (c : FileClash) : String :=
  "Hosts " ++ Text.quoted c.first ++ " and " ++ Text.quoted c.second ++
    " would both be written to " ++ c.file

end FileClash

namespace HostPlan

def isSafeChar (c : Char) : Bool :=
  ('a' ≤ c && c ≤ 'z') || ('A' ≤ c && c ≤ 'Z') || ('0' ≤ c && c ≤ '9') ||
    c = '-' || c = '_' || c = '.'

/-- The name of a host's file; a character that is not safe becomes an underscore. -/
def fileName (host : String) : String :=
  "hostplan-" ++ host.map (fun c => if isSafeChar c then c else '_') ++ ".json"

end HostPlan

/-- What is left to the whole fleet of a sliced plan. -/
structure GlobalSteps where
  planId : String
  steps : List Step
  /-- The global steps that a host's step waits for, by the id of that step. -/
  dependencyRefs : Dict (List String)

namespace GlobalSteps

def fileName : String := "global-steps.json"

def shape : Shape GlobalSteps :=
  .record "GlobalSteps" true
    (.field "planId" .required .text <|
     .field "steps" .required (.list Step.shape) <|
     .field "dependencyRefs" .unlessBare (.dict .texts) .done)
    (fun (planId, steps, dependencyRefs, ()) => ⟨planId, steps, dependencyRefs⟩)
    (fun g => (g.planId, g.steps, g.dependencyRefs, ()))

def encode (g : GlobalSteps) : String := (shape.write g).pretty ++ "\n"

end GlobalSteps

namespace Slice

/-- The hosts by the names of their files, or the first two that share one. -/
def fileNames : (names : Dict String) → (hosts : List String) → Except FileClash (Dict String)
  | names, [] => .ok names
  | names, host :: rest =>
    let file := HostPlan.fileName host
    match names.get? file with
    | some other => .error ⟨other, host, file⟩
    | none => fileNames (names.insert file host) rest

/-- The names and contents of the files: host plans by name, then the global steps. -/
def files (slice : Slice) (planId : String) : Except FileClash (List (String × String)) :=
  match fileNames .empty slice.hostPlans.keys with
  | .error clash => .error clash
  | .ok names =>
    let hosts := names.entries.filterMap fun (file, host) =>
      (slice.hostPlans.get? host).map fun plan => (file, plan.encode)
    let globals : GlobalSteps := ⟨planId, slice.globalSteps, slice.globalRefs⟩
    .ok (hosts ++ [(GlobalSteps.fileName, globals.encode)])

end Slice

end FleetPlan
