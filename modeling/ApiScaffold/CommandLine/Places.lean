import ApiScaffold.CommandLine.Program

/-!
# Places

The files and directories that a run of the program may look at or change, so that they can be
observed before it: first the draft, and once that is known the stubs, the files of the jobs
and the manifest.
-/
namespace ApiScaffold.CommandLine.Places

open Text

/-- The directories of stubs and the stubs that may be in them. -/
def stubs (s : Settings) : List Path :=
  let names := ControllerFile.classStub :: DataFile.classStub ::
    s.methodVerbs.map ControllerFile.methodStub
  s.stubPaths.flatMap fun dir =>
    Path.ofText dir :: names.map fun name => (Path.ofText dir).append (.ofText name)

/-- The files that a generation writes, from its output directory. -/
def generated (schema : Schema) (s : Settings) : List Text :=
  (Job.all schema s).map fun job =>
    match job with
    | .controller c _ => ControllerFile.path s c
    | .data e => DataFile.path s e

/-- The files that a removal takes away, from its output directory. -/
def removed (s : Settings) (name : Text) : List Text :=
  Removal.paths s { name, space := s.controllerNamespace }

def draft (o : Options) : List Path := (o.draft.map Path.ofText).toList

/-- The places below the output directory and that of the manifest. -/
def outputs (o : Options) (schema : Schema) (s : Settings) : List Path :=
  let names := match o.delete with
    | some name => removed s name
    | none => generated schema s
  let below := match o.output with
    | some dir => Path.ofText dir :: names.map fun name => (Path.ofText dir).append (.ofText name)
    | none => []
  below ++ (o.manifest.map Path.ofText).toList

/-- The places of a run beside the draft. -/
def others (site : Site) (o : Options) (tree : Tree) : List Path :=
  let known := match o.draftPath site.cwd with
    | .ok draft => (removalSettings site tree draft o.overrides).2.toOption
    | .error _ => none
  match known with
  | some (schema, config) => stubs config.settings ++ outputs o schema config.settings
  | none => []

end ApiScaffold.CommandLine.Places
