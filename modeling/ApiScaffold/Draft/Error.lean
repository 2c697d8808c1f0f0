import ApiScaffold.Schema.Issue

/-!
# Errors of drafts

The ways in which a document fails to be a draft. Some of them hold the issues of a record
that the draft describes; their headline leaves the issues out.
-/
namespace ApiScaffold

open Text

inductive DraftError where
  | notAFile (path : Text)
  | invalidYaml (path : Text)
  | topLevel (path kind : Text)
  | columnForm (column kind : Text)
  | twoTypes (column first second : Text)
  | relationshipsForm (entity : Text)
  | relationshipKind (kind entity : Text) (known : List Text)
  | relationshipTargets (kind entity : Text)
  | modelForm (name : Text)
  | invalidModel (name : Text) (found : List Issue)
  | controllerName
  | controllerForm (name : Text)
  | invalidController (name : Text) (found : List Issue)
  | modelsForm
  | controllersForm
  | invalidConfiguration (found : List Issue)
  | invalidSchema (found : List Issue)
  deriving Repr

namespace DraftError

def headline : DraftError → Text
  | notAFile path => "Draft path is not a file: " ++ path
  | invalidYaml path => "Invalid YAML in " ++ path
  | topLevel path kind =>
    "Expected a mapping at the top of " ++ path ++ ", got " ++ kind ++ "."
  | columnForm column kind =>
    "Column '" ++ column ++ "' must be a string or mapping, got " ++ kind ++ "."
  | twoTypes column first second =>
    "Column '" ++ column ++ "' declares two data types: '" ++ first ++ "' and '" ++ second ++ "'."
  | relationshipsForm entity => "'relationships' of '" ++ entity ++ "' must be a mapping."
  | relationshipKind kind entity known =>
    "Unknown relationship type '" ++ kind ++ "' on '" ++ entity ++ "'. Expected one of: " ++
      join ", " known ++ "."
  | relationshipTargets kind entity =>
    "Targets of '" ++ kind ++ "' on '" ++ entity ++ "' must be a name or a list of names."
  | modelForm name => "Model '" ++ name ++ "' must be a mapping of columns."
  | invalidModel name _ => "Invalid model '" ++ name ++ "'"
  | controllerName => "Controller with an empty name."
  | controllerForm name => "Controller '" ++ name ++ "' must be a mapping of actions."
  | invalidController name _ => "Invalid controller '" ++ name ++ "'"
  | modelsForm => "'models' must be a mapping of model names to columns."
  | controllersForm => "'controllers' must be a mapping of controller names to actions."
  | invalidConfiguration _ => "Config validation failed"
  | invalidSchema _ => "Draft validation failed"

/-- The issues behind an error, if it comes from the check of a record. -/
def issues? : DraftError → Option (List Issue)
  | invalidModel _ found => some found
  | invalidController _ found => some found
  | invalidConfiguration found => some found
  | invalidSchema found => some found
  | _ => none

/-- Whether details follow the headline. -/
def hasDetails : DraftError → Bool
  | invalidYaml _ => true
  | e => e.issues?.isSome

/-- The text of an error in one line, where details are left out. -/
def message (e : DraftError) : Text :=
  if e.hasDetails then e.headline ++ ": ..." else e.headline

end DraftError

end ApiScaffold
