import ApiScaffold.Draft.BareKeyword
import ApiScaffold.Failure
import ApiScaffold.Yaml.Document

/-!
# Draft files

A draft file is YAML with bare keywords, and a mapping at its top.
-/
namespace ApiScaffold.Draft

open Text

/-- The document in the text of a draft file. -/
def documentOf (path t : Text) : Except Failure Mapping :=
  match Yaml.load (expandBareKeywords t) with
  | .error .malformed => .error (.draft (.invalidYaml path))
  | .error (.misuse m) => .error (.misuse m)
  | .ok (.mapping pairs) => .ok pairs
  | .ok v => .error (.draft (.topLevel path v.kindName))

/-- The document in a draft file. -/
def load (tree : Tree) (cwd path : Path) : Except Failure Mapping :=
  let full := cwd.append path
  match tree.exists? full with
  | .error e => .error (.system e)
  | .ok false => .error (.missingDraft path.text)
  | .ok true =>
    match tree.isFile full with
    | .error e => .error (.system e)
    | .ok false => .error (.draft (.notAFile path.text))
    | .ok true =>
      match tree.readFile full with
      | .error e => .error (.system e)
      | .ok bytes =>
        match ofFile bytes with
        | .error e => .error (.undecodable e)
        | .ok t => documentOf path.text t

end ApiScaffold.Draft
