import ApiScaffold.Value.Display

/-!
# Reports

What the checks of a draft found: items of three levels, each with a code, a message and the
names it is about. A report without errors is valid.
-/
namespace ApiScaffold

open Text

inductive Severity where
  | error | warning | info
  deriving DecidableEq, Repr

def Severity.text : Severity → Text
  | error => "error"
  | warning => "warning"
  | info => "info"

/-- The mark of an item in a report. -/
def Severity.mark : Severity → Text
  | error => "✗"
  | warning => "⚠"
  | info => "ℹ"

structure Finding where
  level : Severity
  code : Text
  message : Text
  context : Mapping := []
  deriving Repr

/-- A finding in one line. -/
def Finding.text (f : Finding) : Text :=
  "[" ++ f.level.text.map upperAscii ++ "] " ++ f.code ++ ": " ++ f.message

structure Report where
  findings : List Finding := []
  deriving Repr

namespace Report

def add (r : Report) (level : Severity) (code message : Text) (context : Mapping := []) : Report :=
  ⟨r.findings ++ [⟨level, code, message, context⟩]⟩

def merge (r other : Report) : Report := ⟨r.findings ++ other.findings⟩

def ofLevel (r : Report) (level : Severity) : List Finding :=
  r.findings.filter fun f => f.level = level

def errors (r : Report) : List Finding := r.ofLevel .error

def warnings (r : Report) : List Finding := r.ofLevel .warning

def isValid (r : Report) : Bool := r.errors.isEmpty

/-- The codes of the findings, each once, in order of their letters. -/
def codes (r : Report) : List Text := sort (distinct (r.findings.map (·.code)))

def summary (r : Report) : Text :=
  "Validation: " ++ ofNat r.errors.length ++ " error(s), " ++ ofNat r.warnings.length ++
    " warning(s), " ++ ofNat r.findings.length ++ " total item(s)."

private def findingLines (f : Finding) : List Text :=
  ("  " ++ f.level.mark ++ " [" ++ f.code ++ "] " ++ f.message) ::
    f.context.map fun p => spaces 7 ++ p.1.display ++ ": " ++ p.2.display

/-- A report in many lines, where findings that only inform may be left out. -/
def text (r : Report) (withInfo : Bool := false) : Text :=
  let shown := r.findings.filter fun f => withInfo || f.level ≠ .info
  join "\n" (r.summary :: [] :: shown.flatMap findingLines)

end Report

end ApiScaffold
