import ApiScaffold.Generation.Run

/-!
# Removing the files of a resource

The data object and the controller that a generation would make for a name are taken away
again, as far as they are there.
-/
namespace ApiScaffold.Removal

open Text

/-- The paths of the files of a resource. -/
def paths (s : Settings) (c : Controller) : List Text :=
  [ClassNames.dataPath s c.modelName, ControllerFile.path s c]

def notice (em : Emitter) (path : Text) (there : Bool) : Log.Entry :=
  let message : Text :=
    if !there then "Not found: " ++ path
    else if em.dryRun then "[dry-run] Would delete " ++ path ++ "."
    else "Deleted: " ++ path
  ⟨.info, .exporters, message⟩

/-- Removes paths in order, up to the first failure. -/
def removeAll (em : Emitter) (tree : Tree) : List Text → Result Emitter
  | [] => ⟨tree, [], .ok em⟩
  | path :: rest =>
    match em.remove tree path with
    | (tree, .error e) => ⟨tree, [], .error (.system e)⟩
    | (tree, .ok (there, em)) =>
      let result := removeAll em tree rest
      { result with log := notice em path there :: result.log }

def lastNotice (c : Controller) (em : Emitter) : Log.Entry :=
  let dry : Text := if em.dryRun then " (dry-run)" else []
  ⟨.info, .generator, "Resource " ++ c.modelName ++ ": " ++
    ofNat em.manifest.removed.length ++ " removed, " ++ ofNat em.manifest.missing.length ++
    " not found" ++ dry ++ "."⟩

/-- Removes the files of the resource with the given name. -/
def resource (site : Site) (s : Settings) (tree : Tree) (name : Text) (output : Path)
    (dryRun : Bool) : Result Manifest :=
  match Controller.make { name, space := s.controllerNamespace } with
  | .error refusal => ⟨tree, [], .error (.ofRefusal refusal)⟩
  | .ok c =>
    match Path.real site.cwd output with
    | .error e => ⟨tree, [], .error (.system e)⟩
    | .ok directory =>
      let result := removeAll (Emitter.start directory true dryRun) tree (paths s c)
      match result.value with
      | .error f => ⟨result.tree, result.log, .error f⟩
      | .ok em => ⟨result.tree, result.log ++ [lastNotice c em], .ok em.manifest⟩

end ApiScaffold.Removal
