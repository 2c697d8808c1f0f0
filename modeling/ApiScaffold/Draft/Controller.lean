import ApiScaffold.Failure
import ApiScaffold.Schema.Controller
import ApiScaffold.Value.Integer

/-!
# Controllers of a draft

A controller is a mapping of actions. The key `resource` stands for several actions, which
are named by a word or listed; every action is declared once, where it is met first.
-/
namespace ApiScaffold.Draft

open Text

/-- The actions of a resource that is shown in a browser. -/
def webMethods : List Text := ["index", "create", "store", "show", "edit", "update", "destroy"]

/-- The actions that the text under the key `resource` stands for. -/
def resourceMethods (written : Text) (defaults : List Text) : List Text :=
  let text := trim written
  if lower text = ("api" : Text) then defaults
  else if lower text = ("web" : Text) then webMethods
  else ((splitOn ',' text).map trim).filter (· ≠ [])

/-- The actions that one entry declares. -/
def entryMethods (defaults : List Text) (key value : Value) : Except Misuse (List Text) :=
  key.written.bind fun action =>
    if action = ("resource" : Text) then
      value.written.map fun written => resourceMethods written defaults
    else .ok [action]

/-- The actions of all entries, in order. -/
def declaredMethods (defaults : List Text) : Mapping → Except Misuse (List Text)
  | [] => .ok []
  | (key, value) :: rest =>
    (entryMethods defaults key value).bind fun first =>
      (declaredMethods defaults rest).map fun more => first ++ more

/-- All actions of a definition, each where it is met first. -/
def methods (defaults : List Text) (pairs : Mapping) : Except Misuse (List Text) :=
  (declaredMethods defaults pairs).map distinct

/-- The parts of a controller name. Slashes and backslashes are the same. -/
def nameParts (name : Text) : List Text :=
  (splitOn '/' (replaceChar '\\' "/" name)).filter (· ≠ [])

/-- Issues of the parts of a controller are issues of the controller. -/
def controllerFailure (name : Text) : Failure → Failure
  | .issues found => .draft (.invalidController name found)
  | other => other

/-- A controller from its name and definition in a draft. -/
def controller (name definition : Value) (defaults : List Text) : Except Failure Controller :=
  (name.written.mapError .misuse).bind fun shown =>
    let parts := nameParts shown
    let read (last : Text) (pairs : Mapping) : Except Failure Controller :=
      ((methods defaults pairs).mapError .misuse).bind fun methods =>
        let c : Controller := { name := last, space := join "\\" parts.dropLast, methods }
        (c.make.mapError .ofRefusal).mapError (controllerFailure shown)
    match parts.getLast? with
    | none => .error (.draft .controllerName)
    | some last =>
      match definition with
      | .null => read last []
      | .mapping pairs => read last pairs
      | _ => .error (.draft (.controllerForm shown))

end ApiScaffold.Draft
