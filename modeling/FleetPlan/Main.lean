/-
The program on a machine.

This is the only place where the files, the clock and the environment of a
machine are touched.
-/
import Std.Time.DateTime.Timestamp
import FleetPlan.Command.Program
import FleetPlan.Moment

namespace FleetPlan

/-! ### Files -/

namespace FileError

/-- Why the system did not do something. -/
def ofSystem : IO.Error → FileError
  | .noFileOrDirectory .. => .notFound
  | .alreadyExists .. => .alreadyThere
  | .inappropriateType _ code _ => if code = 21 then .isDirectory else .notDirectory
  | e => .other e.toString

end FileError

/-- Does something that the system may refuse. -/
def trySystem {α : Type} (action : IO α) : IO (Except FileError α) := do
  try return .ok (← action)
  catch e => return .error (.ofSystem e)

instance : MonadFiles IO where
  isThere path := return (← trySystem (IO.FS.realPath path)).isOk
  readFile path := trySystem do
    return (← IO.FS.readBinFile path).data.toList
  makeDirectory path := trySystem do
    if !path.isEmpty then IO.FS.createDirAll path
  writeFile path content := trySystem (IO.FS.writeFile path content)

/-! ### The environment -/

namespace Environment

/-- The variables that the system lists, each ended by a zero octet. -/
def settingsIn (listing : String) : Dict String :=
  .ofList <| (Text.pieces (Char.ofNat 0) listing.toList).filterMap fun entry =>
    match entry.dropWhile (· ≠ '=') with
    | _ :: value => some (String.ofList (entry.takeWhile (· ≠ '=')), String.ofList value)
    | [] => none

/-- The number of the user who started a process, in what the system tells of the process. -/
def userIn? (status : String) : Option (List Char) :=
  (Text.pieces '\n' status.toList).findSome? fun line =>
    match Text.pieces '\t' line with
    | name :: user :: _ => if name = "Uid:".toList then some user else none
    | _ => none

/-- The home directory of a user, in the list of accounts. -/
def accountHomeIn? (accounts : String) (user : List Char) : Option String :=
  (Text.pieces '\n' accounts.toList).findSome? fun line =>
    match Text.pieces ':' line with
    | [_, _, id, _, _, home, _] => if id = user then some (String.ofList home) else none
    | _ => none

/-- The text of a file; one that cannot be read, or is no text, has none. -/
def textOf (path : String) : IO String := do
  match ← readFile path with
  | .ok octets => return (Text.ofOctets? octets).getD ""
  | .error _ => return ""

/-- What the system tells of the user who runs the program. -/
def ofSystem : IO Environment := do
  let settings := settingsIn (← textOf "/proc/self/environ")
  let user := userIn? (← textOf "/proc/self/status")
  let accounts ← textOf "/etc/passwd"
  return ⟨settings, user.bind (accountHomeIn? accounts)⟩

end Environment

end FleetPlan

open FleetPlan

def main (words : List String) : IO UInt32 := do
  let now ← Std.Time.Timestamp.now
  let moment : Moment := ⟨now.toMillisecondsSinceUnixEpoch.val.toNat⟩
  let outcome ← runProgram (← Environment.ofSystem) moment.text words
  IO.print outcome.printed.output
  IO.eprint outcome.printed.notices
  return outcome.exitCode.toUInt32
