import ApiScaffold.CommandLine.Places
import ApiScaffold.Stub.Packaged
import Std.Time.DateTime.Timestamp

/-!
# The executable

Observes the places that a run looks at, performs the run on what was observed, and carries out
what it changed. Every file is put in place whole, from a temporary one beside it.
-/
namespace ApiScaffold

/-- Where the packaged stubs are said to be. They come with the program, not with the system. -/
def packagedPlace : Path := .ofText "/usr/share/blueprintgen/stubs"

def packagedTree : Tree :=
  let tree := (({} : Tree).makeDirectories packagedPlace).1
  Stub.packaged.foldl
    (fun tree stub => tree.set (packagedPlace.parts ++ [stub.1]) (.file (Text.utf8 stub.2))) tree

def nativeName (p : Path) : String := String.ofList p.text

/-- What an open file holds. A directory can be opened but not read. -/
def contentOf (handle : IO.FS.Handle) (name : String) : IO Node := do
  try
    let _ ← handle.read 1
    return .file (← IO.FS.readBinFile name).toList
  catch _ => return .directory

/-- What is at a place of the system, if anything is. -/
def look (p : Path) : IO (Option Node) := do
  try
    let handle ← IO.FS.Handle.mk (nativeName p) .read
    some <$> contentOf handle (nativeName p)
  catch _ => return none

/-- Adds what is at a place and at the directories above it. -/
def observe (cwd : Path) (tree : Tree) (place : Path) : IO Tree := do
  let parts := (Path.resolve cwd place).parts
  let mut tree := tree
  for n in List.range (parts.length + 1) do
    let loc := parts.take n
    if (tree.find? loc).isNone then
      match ← look ⟨"/", loc⟩ with
      | some node => tree := tree.set loc node
      | none => pure ()
  return tree

/-- Carries out the changes from one tree to another. -/
def carryOut (before after : Tree) : IO Unit := do
  for (loc, node) in before.entries do
    match node with
    | .file _ =>
      if (after.find? loc).isNone then IO.FS.removeFile (nativeName ⟨"/", loc⟩)
    | .directory => pure ()
  for (loc, node) in after.entries do
    if before.find? loc ≠ some node then
      let name := nativeName ⟨"/", loc⟩
      match node with
      | .directory => IO.FS.createDirAll name
      | .file content =>
        IO.FS.writeBinFile (name ++ ".tmp") ⟨content.toArray⟩
        IO.FS.rename (name ++ ".tmp") name

def currentMoment : IO (Option Moment) := do
  let epoch : Date := { year := 1970, month := 1, day := 1 }
  let elapsed := (← Std.Time.Timestamp.now).toNanosecondsSinceUnixEpoch.val / 1000
  return Moment.ofInstant? ((epoch.dayNumber * Moment.microsecondsPerDay : Nat) + elapsed)

/-- Performs a run with the given arguments and answers with its exit status. -/
def execute (arguments : List Text) (now : Moment) : IO UInt32 := do
  let cwd := Path.ofText (toString (← IO.currentDir)).toList
  let site : Site := { cwd, packaged := packagedPlace, now }
  let before ← match CommandLine.Options.read arguments with
    | .error _ => pure packagedTree
    | .ok o => do
      let tree ← (CommandLine.Places.draft o).foldlM (observe cwd) packagedTree
      (CommandLine.Places.others site o tree).foldlM (observe cwd) tree
  let outcome := CommandLine.run site (now.clockText.take 8) arguments before
  carryOut before outcome.tree
  IO.print (String.ofList outcome.printed)
  IO.eprint (String.ofList outcome.errors)
  match outcome.status with
  | .ok exit => return UInt32.ofNat exit.code
  | .error f => do
    IO.eprintln ("blueprintgen: " ++ String.ofList f.message)
    return 1

end ApiScaffold

def main (arguments : List String) : IO UInt32 := do
  match ← ApiScaffold.currentMoment with
  | some now => ApiScaffold.execute (arguments.map String.toList) now
  | none => return 1
