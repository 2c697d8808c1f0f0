import ApiScaffold.Manifest

/-!
# Reports of a generation

How a generation went: its steps, what the checks of the draft said, the artifacts that were
skipped and why, and the manifest of the files, if it came to writing files. Times are those
of a clock that stands still.
-/
namespace ApiScaffold

open Text

structure GenerationStep where
  name : Text
  success : Bool := true
  detail : Text
  deriving DecidableEq, Repr

structure GenerationReport where
  success : Bool := false
  dryRun : Bool := false
  sourceFile : Text := []
  outputDirectory : Text := []
  entities : Nat := 0
  steps : List GenerationStep := []
  validationErrors : List Text := []
  validationWarnings : List Text := []
  generationErrors : List Text := []
  skipped : List Text := []
  manifest : Option Manifest := none
  deriving DecidableEq, Repr

namespace GenerationReport

def files (r : GenerationReport) : List FileRecord := (r.manifest.map (·.files)).getD []

/-- The text of a time span of no length. -/
def noTime : Text := "0.000s"

def thickRule : Text := List.replicate 60 '='

def thinRule : Text := List.replicate 60 '-'

def stepLine (s : GenerationStep) : Text :=
  let mark : Text := if s.success then "✓" else "✗"
  "    " ++ mark ++ " " ++ padRight 22 s.name ++ "   " ++ noTime ++ "  " ++ s.detail

def fileLine (f : FileRecord) : Text :=
  "    + " ++ padRight 16 f.kind ++ " " ++ f.absolutePath

def sectionLines (title mark : Text) (items : List Text) : List Text :=
  if items = [] then []
  else thinRule :: ("  " ++ title ++ " (" ++ ofNat items.length ++ "):") ::
    items.map fun item => "    " ++ mark ++ " " ++ item

/-- A row of the head of a report. -/
def row (name value : Text) : Text := "  " ++ padRight 18 name ++ value

def status (r : GenerationReport) : Text :=
  let verdict : Text := if r.success then "SUCCESS" else "FAILED"
  let dry : Text := if r.dryRun then " (dry run)" else []
  verdict ++ dry

/-- The rows between the title of a report and its steps. -/
def rows (r : GenerationReport) : List Text :=
  let source := if r.sourceFile = [] then [] else [row "Draft:" r.sourceFile]
  let total := match r.manifest with
    | none => []
    | some m => [row "Total lines:" (ofNatGrouped m.totalLines)]
  [row "Status:" r.status] ++ source ++
    [row "Output:" r.outputDirectory, row "Models processed:" (ofNat r.entities),
     row "Files generated:" (ofNat r.files.length)] ++
    total ++ [row "Total time:" noTime]

def stepLines (r : GenerationReport) : List Text :=
  if r.steps = [] then [] else ("  Pipeline Steps:" : Text) :: r.steps.map stepLine

/-- A report in many lines. -/
def summary (r : GenerationReport) : Text :=
  join "\n" <|
    [thickRule, "  Blueprintgen - Generation Report", thickRule] ++ r.rows ++ [thinRule] ++
    r.stepLines ++ r.files.map fileLine ++
    sectionLines "Validation Errors" "✗" r.validationErrors ++
    sectionLines "Validation Warnings" "⚠" r.validationWarnings ++
    sectionLines "Generation Errors" "✗" r.generationErrors ++
    sectionLines "Skipped" "⊘" r.skipped ++ [thickRule]

end GenerationReport

end ApiScaffold
