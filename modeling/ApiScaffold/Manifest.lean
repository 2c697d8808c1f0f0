import ApiScaffold.Digest
import ApiScaffold.Json

/-!
# Manifests

The record of one run over an output directory: the files that were written, in order, with
their sizes and digests, and the paths of files that were removed or looked for in vain.
-/
namespace ApiScaffold

open Text

/-- A file that a run makes: what it is, its path below the output directory and its text. -/
structure Artifact where
  kind : Text
  path : Text
  content : Text
  deriving DecidableEq, Repr

/-- The lines of a text; a last line without a line feed counts too. -/
def lineCount (t : Text) : Nat :=
  t.count '\n' + (if t = [] ∨ t.getLast? = some '\n' then 0 else 1)

structure FileRecord where
  kind : Text
  relativePath : Text
  absolutePath : Text
  size : Nat
  lines : Nat
  digest : Text
  deriving DecidableEq, Repr

namespace FileRecord

def of (a : Artifact) (absolutePath : Text) : FileRecord :=
  { kind := a.kind, relativePath := a.path, absolutePath, size := (utf8 a.content).length,
    lines := lineCount a.content, digest := Digest.ofText a.content }

def toJson (r : FileRecord) : Json :=
  .object [("kind", .text r.kind), ("relative_path", .text r.relativePath),
    ("absolute_path", .text r.absolutePath), ("size_bytes", .int r.size),
    ("line_count", .int r.lines), ("sha256", .text r.digest)]

end FileRecord

structure Manifest where
  outputDirectory : Text := []
  files : List FileRecord := []
  removed : List Text := []
  missing : List Text := []
  deriving DecidableEq, Repr

namespace Manifest

/-- The kind and absolute path of every written file. -/
def created (m : Manifest) : List (Text × Text) := m.files.map fun f => (f.kind, f.absolutePath)

def totalBytes (m : Manifest) : Nat := (m.files.map (·.size)).foldr (· + ·) 0

def totalLines (m : Manifest) : Nat := (m.files.map (·.lines)).foldr (· + ·) 0

def toJson (m : Manifest) : Json :=
  .object [("output_directory", .text m.outputDirectory), ("total_files", .int m.files.length),
    ("total_bytes", .int m.totalBytes), ("total_lines", .int m.totalLines),
    ("files", .list (m.files.map FileRecord.toJson)),
    ("removed", .list (m.removed.map .text)), ("missing", .list (m.missing.map .text))]

def defaultIndent : Nat := 2

/-- The text of the file that a manifest is kept in. -/
def fileText (m : Manifest) : Text := m.toJson.render (some defaultIndent)

end Manifest

end ApiScaffold
