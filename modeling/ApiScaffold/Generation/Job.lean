import ApiScaffold.ControllerFile
import ApiScaffold.DataFile
import ApiScaffold.Failure

/-!
# Jobs

Each file of a generation is a job: a controller with the entity that it serves, or the data
object of an entity. Declared controllers come first, as far as their namespace is covered;
then, when every model is to have one, a controller for each entity that none of them serves;
then the data objects. A job whose class stub is nowhere to be found makes no file.
-/
namespace ApiScaffold

open Text

/-- Where a generation takes place: the working directory, the directory of the packaged stubs,
and the moment that the clock shows whenever the example of a date asks for it. A clock that goes
on between two generations is a change of site. -/
structure Site where
  cwd : Path
  packaged : Path
  now : Moment
  deriving Repr

inductive Job where
  | controller (c : Controller) (e : Option Entity)
  | data (e : Entity)
  deriving Repr

namespace Job

/-- The name of a job in reports. -/
def label : Job → Text
  | controller c _ => c.className
  | data e => e.name ++ "Data"

def classStub : Job → Text
  | controller _ _ => ControllerFile.classStub
  | data _ => DataFile.classStub

/-- A controller for an entity that no declared one serves. -/
def scaffold (s : Settings) (e : Entity) : Controller :=
  { name := e.name, space := s.controllerNamespace, methods := s.defaultControllerMethods }

/-- The declared controllers that are generated. -/
def declared (schema : Schema) (s : Settings) : List Controller :=
  schema.controllers.filter fun c => s.covers c.space

/-- All controllers that are generated. -/
def controllers (schema : Schema) (s : Settings) : List Controller :=
  let kept := declared schema s
  let served := kept.map Controller.modelName
  kept ++ if s.controllersForAllModels then
      (schema.entities.filter fun e => !served.contains e.name).map (scaffold s)
    else []

/-- The jobs of a generation, in order. -/
def all (schema : Schema) (s : Settings) : List Job :=
  (if s.generateControllers then
    (controllers schema s).map fun c => controller c (schema.entity? c.modelName)
  else []) ++
  (if s.generateData then schema.entities.map data else [])

/-- The methods of a controller, each with its action: those whose stubs are found. -/
def methods (site : Site) (s : Settings) (tree : Tree) (c : Controller) (e : Option Entity) :
    List Text → Stub.Repository → Except Failure (List (Text × Text) × Stub.Repository)
  | [], stubs => .ok ([], stubs)
  | verb :: rest, stubs =>
    match stubs.find tree site.cwd (ControllerFile.methodStub verb) with
    | .error err => .error (.ofRead err)
    | .ok (none, stubs) => methods site s tree c e rest stubs
    | .ok (some stub, stubs) =>
      match ControllerFile.methodText s site.now c e verb stub with
      | .error m => .error (.misuse m)
      | .ok text =>
        (methods site s tree c e rest stubs).map fun (more, stubs) =>
          ((verb, text) :: more, stubs)

/-- The file of a job from its class stub. -/
def fill (site : Site) (s : Settings) (tree : Tree) (stub : Text) (stubs : Stub.Repository) :
    Job → Except Failure (Artifact × Stub.Repository)
  | controller c e =>
    (methods site s tree c e (ControllerFile.writtenVerbs s c) stubs).map fun (found, stubs) =>
      (ControllerFile.artifact s c e stub found, stubs)
  | data e => ((DataFile.artifact s e stub).mapError .misuse).map fun a => (a, stubs)

/-- What a job comes to: a file, or the name of the class stub that is missing. -/
inductive Outcome where
  | made (a : Artifact)
  | lacking (stub : Text)
  deriving DecidableEq, Repr

/-- Renders a job with the stubs among the files as they are now. -/
def render (site : Site) (s : Settings) (tree : Tree) (stubs : Stub.Repository) (job : Job) :
    Except Failure (Outcome × Stub.Repository) :=
  match stubs.find tree site.cwd job.classStub with
  | .error err => .error (.ofRead err)
  | .ok (none, stubs) => .ok (.lacking job.classStub, stubs)
  | .ok (some stub, stubs) =>
    (job.fill site s tree stub stubs).map fun (a, stubs) => (.made a, stubs)

/-- Whether the class stub of a job is found. -/
def finds (site : Site) (tree : Tree) (stubs : Stub.Repository) (job : Job) : Bool :=
  match stubs.find tree site.cwd job.classStub with
  | .ok (some _, _) => true
  | _ => false

/-- The repository that a generation looks stubs up in. -/
def repository (site : Site) (s : Settings) : Stub.Repository :=
  { directories := s.stubPaths.map Path.ofText ++ [site.packaged] }

/-- The files of jobs among files that do not change; jobs without a class stub are left out. -/
def renderAll (site : Site) (s : Settings) (tree : Tree) :
    List Job → Stub.Repository → Except Failure (List Artifact)
  | [], _ => .ok []
  | job :: rest, stubs =>
    match job.render site s tree stubs with
    | .error f => .error f
    | .ok (.lacking _, stubs) => renderAll site s tree rest stubs
    | .ok (.made a, stubs) => (renderAll site s tree rest stubs).map (a :: ·)

end Job

/-- All files of a schema, rendered without writing any. -/
def renderSchema (site : Site) (tree : Tree) (schema : Schema) (s : Settings) :
    Except Failure (List Artifact) :=
  Job.renderAll site s tree (Job.all schema s) (Job.repository site s)

end ApiScaffold
