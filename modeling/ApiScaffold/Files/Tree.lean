import ApiScaffold.Files.Path
import ApiScaffold.Text.Utf8

/-!
# A tree of files

The files and directories of a system without links, as a list of locations. A location is
the list of names from the root; the root itself is always a directory. Operations take paths
as programs give them, with double dots, and answer like a system would: every directory on
the way must be there, a name has at most 255 bytes, and a failed operation changes nothing
unless it says so.
-/
namespace ApiScaffold

open Text

inductive SystemError where
  | notFound | alreadyExists | notDirectory | isDirectory | nameTooLong | busy | embeddedNul
  deriving DecidableEq, Repr

namespace SystemError

/-- The number of the error, if the system itself raised it. -/
def number? : SystemError → Option Nat
  | notFound => some 2
  | busy => some 16
  | alreadyExists => some 17
  | notDirectory => some 20
  | isDirectory => some 21
  | nameTooLong => some 36
  | embeddedNul => none

def message (e : SystemError) : Text :=
  match e.number? with
  | some n => "[Errno " ++ Text.ofNat n ++ "]"
  | none => "embedded null byte"

end SystemError

/-- The absolute path without dots that a path means, unless it has a null character. -/
def Path.real (cwd p : Path) : Except SystemError Path :=
  if p.parts.any (·.contains '\x00') then .error .embeddedNul else .ok (Path.resolve cwd p)

inductive Node where
  | file (content : Bytes)
  | directory
  deriving DecidableEq, Repr

/-- The names from the root, without dots. -/
abbrev Location := List Text

structure Tree where
  entries : List (Location × Node) := []
  deriving DecidableEq, Repr

namespace Tree

def find? (t : Tree) (loc : Location) : Option Node :=
  if loc = [] then some .directory
  else (t.entries.find? fun e => e.1 = loc).map (·.2)

def set (t : Tree) (loc : Location) (node : Node) : Tree :=
  if t.entries.any fun e => e.1 = loc then
    ⟨t.entries.map fun e => if e.1 = loc then (loc, node) else e⟩
  else ⟨t.entries ++ [(loc, node)]⟩

def unset (t : Tree) (loc : Location) : Tree :=
  ⟨t.entries.filter fun e => e.1 ≠ loc⟩

def nameLimit : Nat := 255

/-- The location that names lead to from a directory. Every step needs a directory to start
from; the last location need not exist. -/
def walk (t : Tree) : Location → List Text → Except SystemError Location
  | here, [] => .ok here
  | here, part :: rest =>
    match t.find? here with
    | none => .error .notFound
    | some (.file _) => .error .notDirectory
    | some .directory =>
      if part = ("..": Text) then walk t here.dropLast rest
      else if nameLimit < (utf8 part).length then .error .nameTooLong
      else walk t (here ++ [part]) rest

/-- The location of an absolute path. -/
def locate (t : Tree) (p : Path) : Except SystemError Location :=
  if p.parts.any (·.contains '\x00') then .error .embeddedNul else t.walk [] p.parts

def stat (t : Tree) (p : Path) : Except SystemError Node :=
  match t.locate p with
  | .error e => .error e
  | .ok loc =>
    match t.find? loc with
    | some node => .ok node
    | none => .error .notFound

/-- Whether a question about a node can be answered with no after an error. -/
private def absence : SystemError → Except SystemError Bool
  | .notFound => .ok false
  | .notDirectory => .ok false
  | .embeddedNul => .ok false
  | e => .error e

def isFile (t : Tree) (p : Path) : Except SystemError Bool :=
  match t.stat p with
  | .ok (.file _) => .ok true
  | .ok .directory => .ok false
  | .error e => absence e

def isDirectory (t : Tree) (p : Path) : Except SystemError Bool :=
  match t.stat p with
  | .ok .directory => .ok true
  | .ok (.file _) => .ok false
  | .error e => absence e

def exists? (t : Tree) (p : Path) : Except SystemError Bool :=
  match t.stat p with
  | .ok _ => .ok true
  | .error e => absence e

def readFile (t : Tree) (p : Path) : Except SystemError Bytes :=
  match t.stat p with
  | .ok (.file content) => .ok content
  | .ok .directory => .error .isDirectory
  | .error e => .error e

/-- Makes one directory in an existing one. -/
def makeDirectory (t : Tree) (p : Path) : Except SystemError Tree :=
  match t.locate p with
  | .error e => .error e
  | .ok loc =>
    match t.find? loc with
    | some _ => .error .alreadyExists
    | none => .ok (t.set loc .directory)

/-- Makes one directory; a directory that is there already is no error. -/
def ensureDirectory (t : Tree) (p : Path) : Tree × Except SystemError Unit :=
  match t.makeDirectory p with
  | .ok t => (t, .ok ())
  | .error .embeddedNul => (t, .error .embeddedNul)
  | .error .notFound => (t, .error .notFound)
  | .error e =>
    match t.isDirectory p with
    | .ok true => (t, .ok ())
    | .ok false => (t, .error e)
    | .error e => (t, .error e)

/-- Makes a directory and the missing ones above it, listed from the innermost name. The
directories made before an error stay. -/
def makeDirectoriesFrom (root : Text) : List Text → Tree → Tree × Except SystemError Unit
  | [], t => t.ensureDirectory ⟨root, []⟩
  | name :: above, t =>
    match t.ensureDirectory ⟨root, (name :: above).reverse⟩ with
    | (_, .error .notFound) =>
      match makeDirectoriesFrom root above t with
      | (t, .error e) => (t, .error e)
      | (t, .ok ()) => t.ensureDirectory ⟨root, (name :: above).reverse⟩
    | answer => answer

def makeDirectories (t : Tree) (p : Path) : Tree × Except SystemError Unit :=
  makeDirectoriesFrom p.root p.parts.reverse t

/-- Where a file of this path would be put, if it can be put there at all. -/
def fileTarget (t : Tree) (p : Path) : Except SystemError Location :=
  match t.locate p with
  | .error e => .error e
  | .ok loc =>
    match t.find? loc with
    | some .directory => .error .isDirectory
    | _ => .ok loc

/-- Stores a file in place, over one that is there. -/
def writeFile (t : Tree) (p : Path) (content : Bytes) : Except SystemError Tree :=
  (t.fileTarget p).map fun loc => t.set loc (.file content)

def removeFile (t : Tree) (p : Path) : Except SystemError Tree :=
  (t.fileTarget p).bind fun loc =>
    if (t.find? loc).isSome then .ok (t.unset loc) else .error .notFound

end Tree

end ApiScaffold
