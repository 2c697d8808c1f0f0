import ApiScaffold.Files.AtomicWrite
import ApiScaffold.Manifest

/-!
# Emitting files

An emitter puts artifacts below its output directory and takes files away again, and keeps a
manifest of what it did. In a dry run it only keeps the manifest. When a call fails the
manifest stays as it was; directories that were made for the file may stay.
-/
namespace ApiScaffold

open Text

structure Emitter where
  directory : Path
  atomic : Bool := true
  dryRun : Bool := false
  manifest : Manifest
  deriving Repr

namespace Emitter

/-- An emitter with an empty manifest. -/
def start (directory : Path) (atomic dryRun : Bool) : Emitter :=
  { directory, atomic, dryRun, manifest := { outputDirectory := directory.text } }

/-- Where a path below the output directory leads. An absolute path leads out of it. -/
def target (em : Emitter) (path : Text) : Path := em.directory.append (.ofText path)

/-- Makes the directories above a file and stores it. -/
def store (atomic : Bool) (tree : Tree) (p : Path) (data : Bytes) :
    Tree × Except SystemError Unit :=
  match tree.makeDirectories p.parent with
  | (tree, .error e) => (tree, .error e)
  | (tree, .ok ()) =>
    if atomic then tree.writeAtomically p data
    else
      match tree.writeFile p data with
      | .ok tree => (tree, .ok ())
      | .error e => (tree, .error e)

/-- The record that an artifact gets. -/
def record (em : Emitter) (a : Artifact) : FileRecord := .of a (em.target a.path).text

/-- The emitter after an artifact was written. -/
def noteFile (em : Emitter) (a : Artifact) : Emitter :=
  { em with manifest := { em.manifest with files := em.manifest.files ++ [em.record a] } }

/-- Writes an artifact. -/
def emit (em : Emitter) (tree : Tree) (a : Artifact) : Tree × Except SystemError Emitter :=
  if em.dryRun then (tree, .ok (em.noteFile a))
  else
    match store em.atomic tree (em.target a.path) (utf8 a.content) with
    | (tree, .error e) => (tree, .error e)
    | (tree, .ok ()) => (tree, .ok (em.noteFile a))

def noteRemoved (em : Emitter) (path : Text) : Emitter :=
  { em with manifest := { em.manifest with removed := em.manifest.removed ++ [path] } }

def noteMissing (em : Emitter) (path : Text) : Emitter :=
  { em with manifest := { em.manifest with missing := em.manifest.missing ++ [path] } }

/-- Takes a file away. The answer says whether there was one. -/
def remove (em : Emitter) (tree : Tree) (path : Text) :
    Tree × Except SystemError (Bool × Emitter) :=
  let p := em.target path
  match tree.isFile p with
  | .error e => (tree, .error e)
  | .ok false => (tree, .ok (false, em.noteMissing path))
  | .ok true =>
    if em.dryRun then (tree, .ok (true, em.noteRemoved path))
    else
      match tree.removeFile p with
      | .error e => (tree, .error e)
      | .ok tree => (tree, .ok (true, em.noteRemoved path))

/-- Stores the manifest as JSON at a path, dry run or not. The answer is the absolute path. -/
def writeManifest (em : Emitter) (tree : Tree) (cwd : Path) (path : Text) :
    Tree × Except SystemError Path :=
  match Path.real cwd (.ofText path) with
  | .error e => (tree, .error e)
  | .ok p =>
    match store true tree p (utf8 em.manifest.fileText) with
    | (tree, .error e) => (tree, .error e)
    | (tree, .ok ()) => (tree, .ok p)

end Emitter

end ApiScaffold
