import ApiScaffold.Text.Basic

/-!
# Log entries

What the parts of a generation have to say while they run: a level, the part that speaks and
a message. A log shows the entries of at least a certain level, each on a line that begins
with the time of day.
-/
namespace ApiScaffold.Log

open Text

inductive Level where
  | info | warning | error
  deriving DecidableEq, Repr

def Level.text : Level → Text
  | info => "INFO"
  | warning => "WARNING"
  | error => "ERROR"

def Level.rank : Level → Nat
  | info => 0
  | warning => 1
  | error => 2

/-- The parts that speak in a log. -/
inductive Source where
  | program | drafts | validators | templates | exporters | generator
  deriving DecidableEq, Repr

def Source.text : Source → Text
  | program => "blueprintgen"
  | drafts => "blueprintgen.drafts"
  | validators => "blueprintgen.validators"
  | templates => "blueprintgen.templates"
  | exporters => "blueprintgen.exporters"
  | generator => "blueprintgen.generator"

structure Entry where
  level : Level
  source : Source
  message : Text
  deriving DecidableEq, Repr

def Entry.line (clock : Text) (e : Entry) : Text :=
  clock ++ " │ " ++ padRight 8 e.level.text ++ " │ " ++ e.source.text ++ " │ " ++ e.message ++ "\n"

/-- The lines of the entries that are shown from a level on. -/
def render (clock : Text) (least : Level) (entries : List Entry) : Text :=
  (entries.filter fun e => least.rank ≤ e.level.rank).flatMap (Entry.line clock)

end ApiScaffold.Log
