import ApiScaffold.Check.Rules
import ApiScaffold.Draft.Document
import ApiScaffold.Draft.File
import ApiScaffold.Emitter
import ApiScaffold.Generation.Job
import ApiScaffold.Generation.Report

/-!
# Generating files

A generation checks a schema and then renders and writes one artifact after the other, so a
stub that is looked up late is looked up among the files written before. An artifact without
its class stub is skipped; any other failure ends the generation and leaves what was written.
In a strict generation an error of the checks stops it before the first artifact.
-/
namespace ApiScaffold

open Text

/-- The state of a generation between two jobs. -/
structure Run where
  tree : Tree
  stubs : Stub.Repository
  emitter : Emitter
  skipped : List Text := []
  errors : List Text := []
  log : List Log.Entry := []

namespace Run

/-- What is said of a controller without a model, once its class stub is found. -/
def fallbackNotice (site : Site) (run : Run) (job : Job) : List Log.Entry :=
  match job with
  | .controller c none =>
    if job.finds site run.tree run.stubs then
      [⟨.warning, .templates, "No model '" ++ c.modelName ++ "' for " ++ c.className ++
        "; using default allow-lists."⟩]
    else []
  | _ => []

def dryNotice (em : Emitter) (a : Artifact) : List Log.Entry :=
  if em.dryRun then
    [⟨.info, .exporters, "[dry-run] Would write " ++ a.path ++ " (" ++
      ofNat (utf8 a.content).length ++ " bytes)."⟩]
  else []

/-- Sets a job aside whose class stub is missing. -/
def skip (run : Run) (job : Job) (stub : Text) (stubs : Stub.Repository) : Run :=
  let message := stubs.missingMessage stub
  { run with
    stubs, skipped := run.skipped ++ [job.label],
    errors := run.errors ++ [job.label ++ ": " ++ message],
    log := run.log ++ [⟨.error, .generator, "Skipping " ++ job.label ++ ": " ++ message⟩] }

/-- Does one job. -/
def step (site : Site) (s : Settings) (run : Run) (job : Job) : Run × Except Failure Unit :=
  let spoken := { run with log := run.log ++ run.fallbackNotice site job }
  match job.render site s run.tree run.stubs with
  | .error f => (spoken, .error f)
  | .ok (.lacking stub, stubs) => (spoken.skip job stub stubs, .ok ())
  | .ok (.made a, stubs) =>
    match run.emitter.emit run.tree a with
    | (tree, .error e) => ({ spoken with tree, stubs }, .error (.system e))
    | (tree, .ok emitter) =>
      let log := spoken.log ++ dryNotice run.emitter a
      ({ spoken with tree, stubs, emitter, log }, .ok ())

/-- Does jobs in order, up to the first failure. -/
def steps (site : Site) (s : Settings) : Run → List Job → Run × Except Failure Unit
  | run, [] => (run, .ok ())
  | run, job :: rest =>
    match run.step site s job with
    | (run, .error f) => (run, .error f)
    | (run, .ok ()) => steps site s run rest

end Run

/-- What an operation left behind and came to. -/
structure Result (α : Type) where
  tree : Tree
  log : List Log.Entry
  value : Except Failure α

/-- How a generation is to be done. -/
structure Mode where
  strict : Bool := true
  dryRun : Bool := false
  deriving DecidableEq, Repr

namespace Generation

def checkStep (found : Report) : GenerationStep :=
  let detail : Text :=
    if found.errors ≠ [] then ofNat found.errors.length ++ " error(s)"
    else if found.warnings ≠ [] then ofNat found.warnings.length ++ " warning(s)"
    else "all checks passed"
  { name := "Validate Draft", success := found.isValid, detail }

/-- What the checks have to say. -/
def checkNotices (schema : Schema) (found : Report) : List Log.Entry :=
  Check.openingNotices schema ++ [Check.verdictNotice found] ++
    found.warnings.map (fun f => ⟨.warning, .generator, "  ⚠ " ++ f.text⟩) ++
    found.errors.map (fun f => ⟨.error, .generator, "  ✗ " ++ f.text⟩)

/-- The last notice and the verdict of a report. -/
def finish (mode : Mode) (r : GenerationReport) : GenerationReport × Log.Entry :=
  let success := r.generationErrors = [] ∧ (r.validationErrors = [] ∨ !mode.strict)
  if success then
    ({ r with success := true },
      ⟨.info, .generator, "Generation finished in " ++ GenerationReport.noTime ++ "."⟩)
  else
    ({ r with success := false },
      ⟨.error, .generator, "Generation failed: " ++ ofNat r.validationErrors.length ++
        " validation error(s), " ++ ofNat r.generationErrors.length ++ " generation error(s)."⟩)

/-- The report on the finished jobs of a generation. -/
def jobsReport (schema : Schema) (run : Run) (r : GenerationReport) : GenerationReport :=
  let counts := ofNat run.emitter.manifest.files.length ++ " files, " ++
    ofNat run.skipped.length ++ " skipped"
  { r with
    entities := schema.entities.length, skipped := run.skipped, generationErrors := run.errors,
    manifest := some run.emitter.manifest,
    steps := r.steps ++
      [{ name := "Generate & Emit", success := run.errors = [], detail := counts }] }

def jobsNotice (run : Run) : Log.Entry :=
  ⟨.info, .generator, "Generated " ++ ofNat run.emitter.manifest.files.length ++ " files (" ++
    ofNat run.skipped.length ++ " skipped) in " ++ GenerationReport.noTime ++ "."⟩

/-- Does the jobs of a checked schema and completes its report. -/
def doJobs (site : Site) (mode : Mode) (tree : Tree) (schema : Schema) (s : Settings)
    (directory : Path) (r : GenerationReport) : Result GenerationReport :=
  let emitter := Emitter.start directory s.atomicWrites mode.dryRun
  let start : Run := { tree, stubs := Job.repository site s, emitter }
  match Run.steps site s start (Job.all schema s) with
  | (run, .error f) => ⟨run.tree, run.log, .error f⟩
  | (run, .ok ()) =>
    let (r, last) := finish mode (jobsReport schema run r)
    ⟨run.tree, run.log ++ [jobsNotice run, last], .ok r⟩

/-- A generation whose report already has the given steps behind it. -/
def proceed (site : Site) (mode : Mode) (tree : Tree) (schema : Schema) (s : Settings)
    (output : Path) (r : GenerationReport) : Result GenerationReport :=
  match Path.real site.cwd output with
  | .error e => ⟨tree, [], .error (.system e)⟩
  | .ok directory =>
    match Check.full tree site.cwd schema s with
    | .error f => ⟨tree, Check.openingNotices schema, .error f⟩
    | .ok found =>
      let r := { r with
        dryRun := mode.dryRun, outputDirectory := directory.text,
        validationErrors := found.errors.map Finding.text,
        validationWarnings := found.warnings.map Finding.text,
        steps := r.steps ++ [checkStep found] }
      let said := checkNotices schema found
      if !found.isValid ∧ mode.strict then
        let (r, last) := finish mode r
        ⟨tree, said ++ [last], .ok r⟩
      else
        let result := doJobs site mode tree schema s directory r
        { result with log := said ++ result.log }

/-- Generates the files of a schema. -/
def ofSchema (site : Site) (mode : Mode) (tree : Tree) (schema : Schema) (s : Settings)
    (output : Path) : Result GenerationReport :=
  proceed site mode tree schema s output { sourceFile := schema.sourceFile.getD [] }

/-- The settings of a draft over the given ones of a configuration, and overrides over both. -/
def mergedSettings (base : Option Configuration) (raw : Mapping) (overrides : Value) :
    Except Misuse Mapping := do
  let own ← Draft.settingsOf ((Draft.section? raw "config").getD .null)
  let above ← Draft.settingsOf overrides
  let given := (base.map Configuration.dump).getD []
  .ok (Mapping.insertAll above (Mapping.insertAll own given))

/-- Reads a draft file under the configuration of a generation and overrides. -/
def readDraft (site : Site) (tree : Tree) (base : Option Configuration) (path : Path)
    (overrides : Value) : List Log.Entry × Except Failure (Schema × Configuration) :=
  match Draft.load tree site.cwd path with
  | .error f => ([], .error f)
  | .ok raw =>
    match mergedSettings base raw overrides with
    | .error m => ([], .error (.misuse m))
    | .ok merged =>
      let raw := Mapping.insert (.text "config") (.mapping merged) raw
      Draft.parseNoting raw .null (some path.text)

/-- Generates the files of a draft file. -/
def ofFile (site : Site) (mode : Mode) (tree : Tree) (base : Option Configuration)
    (path output : Path) (overrides : Value) : Result GenerationReport :=
  match readDraft site tree base path overrides with
  | (said, .error f) => ⟨tree, said, .error f⟩
  | (said, .ok (schema, config)) =>
    let detail := ofNat schema.entities.length ++ " models from " ++ path.name
    let r : GenerationReport :=
      { sourceFile := path.text, steps := [{ name := "Load Draft", detail }] }
    let result := proceed site mode tree schema config.settings output r
    { result with log := said ++ result.log }

end Generation

end ApiScaffold
