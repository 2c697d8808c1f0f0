import ApiScaffold.Text.Basic

/-!
# Flags

The flags of the command line and their spellings. A switch stands alone, a parameter takes a
value. Every flag has one long spelling, and the most common ones have a short one of a single
letter as well.
-/
namespace ApiScaffold.CommandLine

open Text

inductive Switch where
  | help | version | validateOnly | dryRun | allModels | noStrict | verbose | quiet
  deriving DecidableEq, Repr

inductive Parameter where
  | draft | output | delete | manifest | stubs | rootNamespace | enumStrategy
  deriving DecidableEq, Repr

inductive Flag where
  | switch (s : Switch)
  | parameter (p : Parameter)
  deriving DecidableEq, Repr

def Switch.spellings : Switch → List Text
  | help => ["-h", "--help"]
  | version => ["--version"]
  | validateOnly => ["--validate-only"]
  | dryRun => ["--dry-run"]
  | allModels => ["--all-models"]
  | noStrict => ["--no-strict"]
  | verbose => ["-v", "--verbose"]
  | quiet => ["-q", "--quiet"]

def Parameter.spellings : Parameter → List Text
  | draft => ["-d", "--draft"]
  | output => ["-o", "--output"]
  | delete => ["--delete"]
  | manifest => ["--manifest"]
  | stubs => ["--stubs"]
  | rootNamespace => ["--namespace"]
  | enumStrategy => ["--enum-strategy"]

namespace Flag

def all : List Flag :=
  [switch .help, switch .version, parameter .draft, parameter .output, switch .validateOnly,
   switch .dryRun, parameter .delete, parameter .manifest, parameter .stubs,
   parameter .rootNamespace, parameter .enumStrategy, switch .allModels, switch .noStrict,
   switch .verbose, switch .quiet]

def spellings : Flag → List Text
  | switch s => s.spellings
  | parameter p => p.spellings

/-- What a flag is called in complaints. -/
def title (f : Flag) : Text := join "/" f.spellings

/-- Every spelling with its flag, in the order of the help. -/
def spelled : List (Text × Flag) :=
  all.flatMap fun f => f.spellings.map fun t => (t, f)

def ofSpelling? (t : Text) : Option Flag := (spelled.find? fun p => p.1 = t).map (·.2)

/-- The spellings that begin with the given text. -/
def completions (start : Text) : List (Text × Flag) :=
  spelled.filter fun p => beginsWith start p.1

end Flag

end ApiScaffold.CommandLine
