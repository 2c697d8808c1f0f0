import ApiScaffold.Files.Tree
import ApiScaffold.Stub.Template
import ApiScaffold.Value.Display

/-!
# Finding stubs

A repository looks a stub up in its directories, in order. What was found first for a name is
remembered, absence included, so that one run sees one text for it whatever happens to the
files; a lookup that fails with an error is not remembered.
-/
namespace ApiScaffold.Stub

open Text

inductive ReadError where
  | system (e : SystemError)
  | undecodable (e : DecodeError)
  deriving DecidableEq, Repr

/-- A stub that must be there and that none of the directories has. -/
structure Missing where
  name : Text
  searched : List Path
  deriving DecidableEq, Repr

structure Repository where
  directories : List Path
  found : List (Text × Option Text) := []
  deriving DecidableEq, Repr

namespace Repository

/-- The text of the directories in messages about a missing stub. -/
def searched (r : Repository) : Text :=
  if r.directories = [] then "<none>" else join ", " (r.directories.map Path.text)

def missingMessage (r : Repository) (name : Text) : Text :=
  "Stub '" ++ name ++ "' not found (searched: " ++ r.searched ++ ")."

/-- The first directory of the list that has a file of the given name. -/
def locateIn (tree : Tree) (cwd : Path) (name : Text) :
    List Path → Except SystemError (Option Path)
  | [] => .ok none
  | dir :: rest =>
    let candidate := dir.append (.ofText name)
    match tree.isFile (cwd.append candidate) with
    | .error e => .error e
    | .ok true => .ok (some candidate)
    | .ok false => locateIn tree cwd name rest

/-- The path of a stub among the files as they are now. -/
def locate (r : Repository) (tree : Tree) (cwd : Path) (name : Text) :
    Except SystemError (Option Path) :=
  locateIn tree cwd name r.directories

/-- The text of a stub in the files as they are now. -/
def read (r : Repository) (tree : Tree) (cwd : Path) (name : Text) :
    Except ReadError (Option Text) :=
  match r.locate tree cwd name with
  | .error e => .error (.system e)
  | .ok none => .ok none
  | .ok (some path) =>
    match tree.readFile (cwd.append path) with
    | .error e => .error (.system e)
    | .ok bytes =>
      match ofFile bytes with
      | .error e => .error (.undecodable e)
      | .ok text => .ok (some text)

/-- The text of a stub as first found, and the repository that remembers it. -/
def find (r : Repository) (tree : Tree) (cwd : Path) (name : Text) :
    Except ReadError (Option Text × Repository) :=
  match r.found.find? fun entry => entry.1 = name with
  | some entry => .ok (entry.2, r)
  | none =>
    match r.read tree cwd name with
    | .error e => .error e
    | .ok text => .ok (text, { r with found := r.found ++ [(name, text)] })

/-- As `find`, for a stub that must be there. Its absence is remembered as well. -/
def load (r : Repository) (tree : Tree) (cwd : Path) (name : Text) :
    Except ReadError (Except Missing Text × Repository) :=
  (r.find tree cwd name).map fun (text, r) =>
    (match text with
      | some text => .ok text
      | none => .error { name, searched := r.directories }, r)

end Repository

def Missing.message (m : Missing) : Text :=
  Repository.missingMessage { directories := m.searched } m.name

end ApiScaffold.Stub
