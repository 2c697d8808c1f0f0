import ApiScaffold.Text.Basic

/-!
# The imports of a generated file

A registry of class names, each with the owners that claim it. A name stays as long as one
owner claims it, so a fragment that turns out not to need a class can release its own claim
without taking the import away from another fragment. Leading backslashes of a name do not
count, and a claim without an owner belongs to the owner `*`.
-/
namespace ApiScaffold

open Text

/-- Names in the order in which they were first claimed, each with its owners. -/
structure Imports where
  claims : List (Text × List Text) := []
  deriving DecidableEq, Repr

namespace Imports

def normalName (name : Text) : Text := stripLeft (· == '\\') name

def ownerOf (owner : Option Text) : Text :=
  match owner with
  | none => "*"
  | some owner => if owner = [] then "*" else owner

def addClaim (name owner : Text) : List (Text × List Text) → List (Text × List Text)
  | [] => [(name, [owner])]
  | (n, owners) :: rest =>
    if n = name then
      (n, if owners.contains owner then owners else owners ++ [owner]) :: rest
    else (n, owners) :: addClaim name owner rest

/-- Claims a name for an owner. -/
def add (r : Imports) (name : Text) (owner : Option Text := none) : Imports :=
  ⟨addClaim (normalName name) (ownerOf owner) r.claims⟩

/-- Drops the claim of one owner; a name that nobody claims any more goes. -/
def release (r : Imports) (name : Text) (owner : Option Text := none) : Imports :=
  ⟨r.claims.filterMap fun claim =>
    if claim.1 = normalName name then
      let owners := claim.2.filter (· ≠ ownerOf owner)
      if owners = [] then none else some (claim.1, owners)
    else some claim⟩

/-- Drops a name whoever claims it. -/
def remove (r : Imports) (name : Text) : Imports :=
  ⟨r.claims.filter (·.1 ≠ normalName name)⟩

def contains (r : Imports) (name : Text) : Bool := r.claims.any (·.1 = normalName name)

/-- The claimed names in the order of code points. -/
def names (r : Imports) : List Text := sort (r.claims.map (·.1))

def size (r : Imports) : Nat := r.claims.length

/-- One `use` line for each name, in order. -/
def render (r : Imports) : Text :=
  join "\n" (r.names.map fun name => "use " ++ name ++ ";")

/-- Claims several names for the owner `*`. -/
def addAll (r : Imports) (names : List Text) : Imports :=
  names.foldl (fun r name => r.add name) r

end Imports

end ApiScaffold
