/-
Files as a value.

A tree holds files by their paths and the directories that were made; a directory
is also there when a file is in it.  The directory that relative paths start from
is always there.  A path is walked name by name, and every name but the last has
to be that of a directory.
-/
import FleetPlan.Dict
import FleetPlan.Files.Basic
import FleetPlan.Text.Pieces

namespace FleetPlan

structure FileTree where
  files : Dict Octets
  directories : List String

namespace FileTree

def empty : FileTree := ⟨.empty, []⟩

/-- The files of the given paths, which have to be in their shortest form. -/
def ofFiles (files : List (String × Octets)) : FileTree := ⟨.ofList files, []⟩

/-- The names that lead to a place. -/
abbrev Location := List String

/-- The shortest path to a place. -/
def pathOf (place : Location) : String := "/".intercalate place

/-- What is at a place. -/
inductive Entry where
  | directory
  | file (content : Octets)

def entry? (t : FileTree) (place : Location) : Option Entry :=
  let path := pathOf place
  if place = [] || place = [""] then some .directory
  else match t.files.get? path with
    | some content => some (.file content)
    | none =>
      if t.directories.contains path || t.files.keys.any (·.startsWith (path ++ "/")) then
        some .directory
      else none

/-- One name further, unless there is no directory to look it up in. -/
def step (t : FileTree) (place : Location) (name : String) : Except FileError Location :=
  match t.entry? place with
  | none => .error .notFound
  | some (.file _) => .error .notDirectory
  | some .directory =>
    if name = "" || name = "." then .ok place
    else if name = ".." then .ok place.dropLast
    else .ok (place ++ [name])

/-- The names in a path; the empty first name of an absolute path is its root. -/
def names (path : String) : List String := (Text.pieces '/' path.toList).map String.ofList

/-- The place that a path leads to. -/
def walk (t : FileTree) (path : String) : Except FileError Location :=
  if path.isEmpty then .error .notFound
  else match names path with
    | "" :: rest => rest.foldlM t.step [""]
    | names => names.foldlM t.step []

/-! ### Operations -/

def contains (t : FileTree) (path : String) : Bool :=
  match t.walk path with
  | .error _ => false
  | .ok place => (t.entry? place).isSome

def read (t : FileTree) (path : String) : Except FileError Octets := do
  let place ← t.walk path
  match t.entry? place with
  | none => .error .notFound
  | some .directory => .error .isDirectory
  | some (.file content) => .ok content

def write (t : FileTree) (path : String) (content : Octets) : Except FileError FileTree := do
  let place ← t.walk path
  match t.entry? place with
  | some .directory => .error .isDirectory
  | _ => .ok { t with files := t.files.insert (pathOf place) content }

/-- One name further, with a directory there unless something else is. -/
def enter (p : FileTree × Location) (name : String) : Except FileError (FileTree × Location) := do
  let (t, place) := p
  let place ← t.step place name
  match t.entry? place with
  | none => .ok ({ t with directories := pathOf place :: t.directories }, place)
  | some _ => .ok (t, place)

/-- Makes the directory of a path with all that it stands in; the empty path needs none. -/
def make (t : FileTree) (path : String) : Except FileError FileTree := do
  if path.isEmpty then return t
  let (t, place) ← match names path with
    | "" :: rest => rest.foldlM enter (t, [""])
    | names => names.foldlM enter (t, [])
  match t.entry? place with
  | some (.file _) => .error .alreadyThere
  | _ => return t

/-- Does something to the tree, which stays as it is when that fails. -/
def attempt (f : FileTree → Except FileError FileTree) : StateM FileTree (Except FileError Unit) :=
  fun t => match f t with
    | .error e => (.error e, t)
    | .ok t' => (.ok (), t')

instance : MonadFiles (StateM FileTree) where
  isThere path := return (← get).contains path
  readFile path := return (← get).read path
  makeDirectory path := attempt (·.make path)
  writeFile path content := attempt (·.write path (Text.octets content))

end FileTree

end FleetPlan
