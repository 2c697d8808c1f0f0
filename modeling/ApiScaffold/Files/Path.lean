import ApiScaffold.Text.Basic

/-!
# Paths

A path is a root, which is empty for a relative path, and the names after it. Empty names and
single dots are dropped when a path is read; double dots stay until the path is made absolute
by `resolve`, which takes them away together with the name before them. Two leading slashes
are a root of their own.
-/
namespace ApiScaffold

open Text

structure Path where
  root : Text := []
  parts : List Text := []
  deriving DecidableEq, Repr

namespace Path

def ofText (t : Text) : Path :=
  let root : Text := match t with
    | '/' :: '/' :: '/' :: _ => "/"
    | '/' :: '/' :: _ => "//"
    | '/' :: _ => "/"
    | _ => []
  ⟨root, (splitOn '/' t).filter fun part => part ≠ [] && part ≠ ['.']⟩

def text (p : Path) : Text :=
  if p.root = [] ∧ p.parts = [] then "." else p.root ++ join "/" p.parts

def isAbsolute (p : Path) : Bool := p.root ≠ []

/-- The second path as seen from the first one: an absolute path stands for itself. -/
def append (p q : Path) : Path :=
  if q.isAbsolute then q else ⟨p.root, p.parts ++ q.parts⟩

def parent (p : Path) : Path := ⟨p.root, p.parts.dropLast⟩

def name (p : Path) : Text := p.parts.getLast?.getD []

/-- Takes away double dots with the names before them. At the root they lead nowhere. -/
def collapse (parts : List Text) : List Text :=
  (parts.foldl (fun done part =>
    if part = ("..": Text) then done.drop 1 else part :: done) []).reverse

/-- The absolute path without dots that a path means in a working directory. -/
def resolve (cwd p : Path) : Path :=
  let full := cwd.append p
  ⟨"/", collapse full.parts⟩

end Path

end ApiScaffold
