/-
Files as commands use them.

Commands read whole files, make directories and write whole files, and each of
these may fail.  They are written against this interface alone, so they run on
the files of a machine and on a value that stands for them.
-/
import FleetPlan.Text.Octets

namespace FleetPlan

/-- Why a file cannot be read or written. -/
inductive FileError where
  | notFound
  | alreadyThere
  | notDirectory
  | isDirectory
  /-- Anything else, in the words of the system. -/
  | other (message : String)
  deriving DecidableEq, Repr

namespace FileError

def message : FileError → String
  | notFound => "No such file or directory (os error 2)"
  | alreadyThere => "File exists (os error 17)"
  | notDirectory => "Not a directory (os error 20)"
  | isDirectory => "Is a directory (os error 21)"
  | other message => message

end FileError

/-- Access to files. -/
class MonadFiles (m : Type → Type) where
  /-- Whether there is a file or a directory of this path. -/
  isThere : String → m Bool
  readFile : String → m (Except FileError Octets)
  /-- Makes a directory, and those that it is to stand in, as far as they are not there. -/
  makeDirectory : String → m (Except FileError Unit)
  /-- Writes a file anew, in a directory that is there. -/
  writeFile : String → String → m (Except FileError Unit)

export MonadFiles (isThere readFile makeDirectory writeFile)

instance {m n : Type → Type} [MonadLift m n] [MonadFiles m] : MonadFiles n where
  isThere path := liftM (isThere path : m Bool)
  readFile path := liftM (readFile path : m _)
  makeDirectory path := liftM (makeDirectory path : m _)
  writeFile path content := liftM (writeFile path content : m _)

end FleetPlan
