import ApiScaffold.CommandLine.Usage
import ApiScaffold.Generation.Removal

/-!
# The program

One run of the program: it validates a draft, generates its files, or removes the files of a
resource, and prints a report. A failure that is no fault of the draft or of the file system
ends the run without an exit status. The log goes to the standard error output; how much of it
is shown is up to the flags.
-/
namespace ApiScaffold.CommandLine

open Text

inductive Exit where
  | success | invalidDraft | incomplete | unwritable | badInput | badUsage
  deriving DecidableEq, Repr

def Exit.code : Exit → Nat
  | success => 0
  | invalidDraft => 1
  | incomplete => 2
  | unwritable => 3
  | badInput => 4
  | badUsage => 2

/-- What a part of a run left behind, said and printed. -/
structure Episode where
  tree : Tree
  log : List Log.Entry := []
  printed : Text := []
  status : Except Failure Exit

namespace Episode

def said (e : Episode) (earlier : List Log.Entry) : Episode := { e with log := earlier ++ e.log }

end Episode

def note (message : Text) : Log.Entry := ⟨.info, .program, message⟩

def complain (message : Text) : Log.Entry := ⟨.error, .program, message⟩

def thickRule : Text := List.replicate 50 '='

def thinRule : Text := List.replicate 50 '-'

namespace Options

/-- The settings that the flags give. -/
def overrides (o : Options) : Value :=
  let stubs : Mapping :=
    if o.stubs = [] then [] else [(.text "stub_paths", .list (o.stubs.map .text))]
  let base : Mapping := match o.rootNamespace with
    | none => []
    | some t => [(.text "root_namespace", .text t)]
  let strategy : Mapping := match o.enumStrategy with
    | none => []
    | some t => [(.text "enum_strategy", .text t)]
  let everyModel : Mapping :=
    if o.allModels then [(.text "controllers_for_all_models", .bool true)] else []
  .mapping (stubs ++ base ++ strategy ++ everyModel)

/-- The least level of the log that is shown. -/
def logLevel (o : Options) : Log.Level :=
  if o.quiet then .error else if o.verbosity = 0 then .warning else .info

/-- The path of the draft, if there is one; an empty one counts as none. -/
def draftPath (o : Options) (cwd : Path) : Except SystemError (Option Path) :=
  match o.draft with
  | none => .ok none
  | some [] => .ok none
  | some t => (Path.real cwd (.ofText t)).map some

end Options

def pathText : Option Path → Text
  | none => "None"
  | some p => p.text

/-- Whether a failure to read a draft is reported as such. -/
def isLoadFailure : Failure → Bool
  | .missingDraft _ => true
  | .draft _ => true
  | .system .notFound => true
  | _ => false

def loadComplaint (f : Failure) : Log.Entry := complain ("Failed to load draft: " ++ f.message)

/-- A run that ends because the draft was not read. -/
def unread (tree : Tree) (f : Failure) : Episode :=
  if isLoadFailure f then { tree, log := [loadComplaint f], status := .ok .badInput }
  else { tree, status := .error f }

def fileError? : Failure → Option SystemError
  | .system e => if e.number?.isSome then some e else none
  | _ => none

/-- A run that ends because of a failure among the files. -/
def blocked (tree : Tree) (task : Text) (f : Failure) : Episode :=
  match fileError? f with
  | none => { tree, status := .error f }
  | some e =>
    { tree, log := [complain ("Failed to " ++ task ++ ": " ++ e.message)],
      status := .ok .unwritable }

/-- The schema and configuration of a draft file under overrides. -/
def readDraft (site : Site) (tree : Tree) (path : Path) (overrides : Value) :
    List Log.Entry × Except Failure (Schema × Configuration) :=
  match Draft.load tree site.cwd path with
  | .error f => ([], .error f)
  | .ok raw => Draft.parseNoting raw overrides (some path.text)

def validationReport (path : Path) (schema : Schema) (found : Report) : Text :=
  let verdict : Text := if found.isValid then "Yes" else "No"
  let details := if found.findings.isEmpty then [] else [[], found.text]
  let head : List Text :=
    [thickRule, "  Draft Validation Report", thickRule, "  File:         " ++ path.name,
     "  Models:       " ++ ofNat schema.entities.length,
     "  Controllers:  " ++ ofNat schema.controllers.length,
     "  Time:         " ++ GenerationReport.noTime, "  Valid:        " ++ verdict]
  CommandLine.printed (head ++ details ++ [thickRule])

/-- Validates a draft. -/
def validate (site : Site) (tree : Tree) (path : Path) (overrides : Value) : Episode :=
  match readDraft site tree path overrides with
  | (said, .error f) => (unread tree f).said said
  | (said, .ok (schema, config)) =>
    let opening := said ++ Check.openingNotices schema
    match Check.full tree site.cwd schema config.settings with
    | .error f => { tree, log := opening, status := .error f }
    | .ok found =>
      { tree, log := opening ++ [Check.verdictNotice found],
        printed := validationReport path schema found,
        status := .ok (if found.isValid then .success else .invalidDraft) }

/-- How a finished generation ends. -/
def verdict (o : Options) (r : GenerationReport) : Exit :=
  if r.success then .success
  else if r.validationErrors ≠ [] ∧ !o.noStrict then .invalidDraft
  else .incomplete

/-- Writes the manifest of a generation, if it is asked for and there is one. -/
def saveManifest (site : Site) (o : Options) (tree : Tree) (output : Path)
    (r : GenerationReport) : Episode :=
  match o.manifest, r.manifest with
  | some (c :: file), some m =>
    if o.dryRun then { tree, status := .ok (verdict o r) }
    else
      let start := Emitter.start output true false
      let em := { start with manifest := { start.manifest with files := m.files } }
      match em.writeManifest tree site.cwd (c :: file) with
      | (tree, .error e) => blocked tree "write manifest" (.system e)
      | (tree, .ok p) =>
        { tree, log := [⟨.info, .exporters, "Manifest written to " ++ p.text ++ "."⟩],
          status := .ok (verdict o r) }
  | _, _ => { tree, status := .ok (verdict o r) }

def closing : Exit → Log.Entry
  | .success => note "Generation completed successfully."
  | e => complain ("Generation failed with exit code " ++ ofNat e.code ++ ".")

/-- The last word on a generation that came to an exit status. -/
def closed (e : Episode) : Episode :=
  match e.status with
  | .error _ => e
  | .ok exit => { e with log := e.log ++ [closing exit] }

/-- Generates the files of a draft. -/
def generate (site : Site) (o : Options) (tree : Tree) (path output : Path) : Episode :=
  let mode : Mode := { strict := !o.noStrict, dryRun := o.dryRun }
  let result := Generation.ofFile site mode tree none path output o.overrides
  closed <| match result.value with
  | .error f =>
    if isLoadFailure f then (unread result.tree f).said result.log
    else (blocked result.tree "write generated files" f).said result.log
  | .ok r =>
    let saved := saveManifest site o result.tree output r
    { saved.said result.log with printed := r.summary ++ "\n" }

def removalReport (o : Options) (name : Text) (m : Manifest) : Text :=
  let resource := Words.studly name
  let verb : Text := if o.dryRun then "Would delete" else "Deleted"
  let counted (what : Text) (paths : List Text) : Text :=
    "  " ++ what ++ " (" ++ ofNat paths.length ++ "):"
  let title : List Text := [thickRule, "  Resource Removal: " ++ resource, thickRule]
  let left : List Text :=
    [thinRule, "  Manual cleanup still required:",
     "    - migration and table '" ++ Words.snake (Inflection.plural resource) ++ "'",
     "    - routes in routes/api.php",
     "    - references in other models, controllers and tests", thickRule]
  CommandLine.printed <|
    title ++ counted verb m.removed :: m.removed.map (fun p => "    ✓ " ++ p) ++
      counted "Not found" m.missing :: m.missing.map (fun p => "    ⊘ " ++ p) ++ left

/-- The configuration that a removal goes by: that of the draft, if one is given. -/
def removalSettings (site : Site) (tree : Tree) (draft : Option Path) (overrides : Value) :
    List Log.Entry × Except Failure (Schema × Configuration) :=
  match draft with
  | some path => readDraft site tree path overrides
  | none => Draft.parseNoting [] overrides none

/-- Removes the files of a resource. -/
def remove (site : Site) (o : Options) (tree : Tree) (name : Text) (draft : Option Path)
    (output : Path) : Episode :=
  match removalSettings site tree draft o.overrides with
  | (said, .error f) => (unread tree f).said said
  | (said, .ok (_, config)) =>
    let result := Removal.resource site config.settings tree name output o.dryRun
    match result.value with
    | .error f => (blocked result.tree "delete generated files" f).said (said ++ result.log)
    | .ok m =>
      { tree := result.tree, log := said ++ result.log, printed := removalReport o name m,
        status := .ok .success }

/-- What a run of the program left behind and showed. -/
structure Outcome where
  tree : Tree
  printed : Text := []
  errors : Text := []
  status : Except Failure Exit

/-- What an episode shows when its log bears the given time of day. -/
def Episode.outcome (e : Episode) (o : Options) (clock : Text) : Outcome :=
  { tree := e.tree, printed := e.printed, errors := Log.render clock o.logLevel e.log,
    status := e.status }

def noOutput : Log.Entry :=
  complain ("Output directory is required for generation and deletion. " ++
    "Use -o/--output or --validate-only.")

/-- A run that generates or removes files. -/
def produce (site : Site) (o : Options) (tree : Tree) (draft : Option Path) (output : Path) :
    Episode :=
  let opening :=
    [note ("Draft:   " ++ pathText draft), note ("Output:  " ++ output.text)]
  let dry := if o.dryRun ∧ o.delete = none then
      [note "Dry-run mode: files will not be written to disk."]
    else []
  match o.delete, draft with
  | some name, draft => (remove site o tree name draft output).said opening
  | none, some path => (generate site o tree path output).said (opening ++ dry)
  | none, none => { tree, log := opening ++ dry, status := .error (.misuse .noPath) }

/-- A run with options that fit together. -/
def perform (site : Site) (clock : Text) (o : Options) (tree : Tree) : Outcome :=
  match o.draftPath site.cwd with
  | .error e => { tree, status := .error (.system e) }
  | .ok draft =>
    if o.validateOnly then
      let opening := [note ("Running validation-only mode for: " ++ pathText draft)]
      match draft with
      | none =>
        let failed : Episode := { tree, log := opening, status := .error (.misuse .noPath) }
        failed.outcome o clock
      | some path => ((validate site tree path o.overrides).said opening).outcome o clock
    else
      match o.output with
      | none =>
        let refused : Episode := { tree, log := [noOutput], status := .ok .badInput }
        let shown := refused.outcome o clock
        { shown with errors := shown.errors ++ usage }
      | some t =>
        match Path.real site.cwd (.ofText t) with
        | .error e => { tree, status := .error (.system e) }
        | .ok output => (produce site o tree draft output).outcome o clock

/-- A run of the program with the given arguments. -/
def run (site : Site) (clock : Text) (arguments : List Text) (tree : Tree) : Outcome :=
  let refuse (c : Complaint) : Outcome := { tree, errors := c.notice, status := .ok .badUsage }
  match Options.read arguments with
  | .error .help => { tree, printed := helpText, status := .ok .success }
  | .error .version => { tree, printed := versionText, status := .ok .success }
  | .error (.complaint c) => refuse c
  | .ok o =>
    match o.conflict? with
    | some c => refuse c
    | none => perform site clock o tree

end ApiScaffold.CommandLine
