/-
Paths as users write them.

A path may begin with a tilde for the home directory and may name variables of
the environment.  A variable that is not set, and has no default, leaves the
whole path as it was written.  Paths are otherwise never rewritten.
-/
import FleetPlan.Dict
import FleetPlan.Text.Alphanumeric

namespace FleetPlan

/-- What the system knows of the user. -/
structure Environment where
  /-- The variables that are set. -/
  settings : Dict String
  /-- The home directory of the user's account. -/
  accountHome : Option String

namespace Environment

/-- Variables alone are those of a user without an account. -/
instance : Coe (Dict String) Environment := ⟨fun settings => ⟨settings, none⟩⟩

def empty : Environment := ⟨.empty, none⟩

/-- The value of a variable that is set. -/
def get? (env : Environment) (name : String) : Option String := env.settings.get? name

/-- The home directory: the one that is set, or else that of the account. -/
def home? (env : Environment) : Option String :=
  ((env.get? "HOME").filter (!·.isEmpty)).or (env.accountHome.filter (!·.isEmpty))

end Environment

namespace Path

/-- The path of something in a directory. -/
def join (directory name : String) : String :=
  if directory.isEmpty || directory.endsWith "/" then directory ++ name
  else directory ++ "/" ++ name

/-! ### Variables -/

/-- A reference to a variable, or a character that stands for itself. -/
inductive Piece where
  | plain (c : Char)
  | reference (name : List Char) (default : Option (List Char))
  deriving DecidableEq, Repr

/-- Whether a character may stand in the name of a variable without braces. -/
def isNameChar (c : Char) : Bool := Text.isAlphanumeric c || c = '_'

/-- The text before the first `:-` and the text behind it, if it occurs. -/
def splitDefault : List Char → List Char × Option (List Char)
  | [] => ([], none)
  | ':' :: '-' :: rest => ([], some rest)
  | c :: rest =>
    let (name, default) := splitDefault rest
    (c :: name, default)

/-- What stands in braces: a name, or a name with a default; a default needs a name before it. -/
def bracedVariable (inside : List Char) : Piece :=
  match splitDefault inside with
  | ([], _) => .reference inside none
  | (name, default) => .reference name default

/-- The pieces of a path. -/
def pieces : (s : List Char) → List Piece
  | [] => []
  | c :: r =>
    if c = '$' then
      match r with
      | [] => [.plain c]
      | d :: r' =>
        if d = '$' then .plain '$' :: pieces r'
        else if d = '\x7b' then
          if r'.contains '\x7d' then
            bracedVariable (r'.takeWhile (· ≠ '\x7d')) ::
              pieces ((r'.dropWhile (· ≠ '\x7d')).drop 1)
          else .plain '$' :: .plain d :: pieces r'
        else if isNameChar d then
          .reference (d :: r'.takeWhile isNameChar) none :: pieces (r'.dropWhile isNameChar)
        else .plain '$' :: pieces (d :: r')
    else .plain c :: pieces r
termination_by s => s.length
decreasing_by
  all_goals simp only [List.length_cons, List.length_drop]
  all_goals try omega
  · have := (List.dropWhile_suffix (l := r') (· ≠ '\x7d')).length_le
    omega
  · have := (List.dropWhile_suffix (l := r') isNameChar).length_le
    omega

/-- What a piece stands for, or none for a variable without a value. -/
def Piece.expand (env : Environment) : Piece → Option (List Char)
  | plain c => some [c]
  | reference name default =>
    match env.get? (String.ofList name) with
    | some value => some value.toList
    | none => default

/-- The path with the values of its variables, or as it is when one has none. -/
def expandVariables (env : Environment) (path : String) : Option String :=
  ((pieces path.toList).mapM (Piece.expand env)).map fun parts => String.ofList parts.flatten

/-! ### The home directory -/

/-- The path with the home directory in place of a tilde that stands alone or before a slash. -/
def expandTilde (env : Environment) (path : String) : String :=
  match path.toList, env.home? with
  | '~' :: rest, some home =>
    if rest.isEmpty || rest.head? = some '/' then home ++ String.ofList rest else path
  | _, _ => path

/-- The path that a user means. -/
def expand (env : Environment) (path : String) : String :=
  match expandVariables env path with
  | none => path
  | some expanded => if path.startsWith "~" then expandTilde env expanded else expanded

end Path

end FleetPlan
