import ApiScaffold.Draft.Column
import ApiScaffold.Schema.Entity

/-!
# Models of a draft

A model is a mapping of column names to definitions, among which a few words are options of
the model: its relationships, its timestamps and whether its records are only marked as
deleted. Options are recognised in any case of their letters.
-/
namespace ApiScaffold.Draft

open Text

/-- The kind that a key of a relationships section denotes. -/
def relationshipKind? (key : Text) : Option RelationshipKind :=
  RelationshipKind.all.find? fun kind => kind.text.map lowerAscii = lower key

/-- What is declared for kinds of relationships, as it is written. -/
abbrev Declarations := List (RelationshipKind × Relationships.Targets)

/-- Puts targets in the place of those declared for their kind before, if any. -/
def redeclare (kind : RelationshipKind) (targets : Relationships.Targets) :
    Declarations → Declarations
  | [] => [(kind, targets)]
  | d :: rest => if d.1 = kind then (kind, targets) :: rest else d :: redeclare kind targets rest

/-- The targets that a value gives, if it has a form for that. -/
def targets? : Value → Option Relationships.Targets
  | .text t => some (.joined t)
  | .list items => some (.parts items)
  | _ => none

/-- Goes through the pairs of a relationships section. A kind without targets is left out. -/
def relationshipPairs (entity : Text) : Mapping → Declarations → Except Failure Declarations
  | [], declared => .ok declared
  | (key, value) :: rest, declared =>
    (key.written.mapError .misuse).bind fun shown =>
      match relationshipKind? shown with
      | none =>
        .error (.draft (.relationshipKind shown entity
          (RelationshipKind.all.map RelationshipKind.text)))
      | some kind =>
        match value with
        | .null => relationshipPairs entity rest declared
        | value =>
          match targets? value with
          | some targets => relationshipPairs entity rest (redeclare kind targets declared)
          | none => .error (.draft (.relationshipTargets shown entity))

/-- The relationships section of a model. -/
def relationships (entity : Text) (definition : Value) : Except Failure Declarations :=
  match definition with
  | .null => .ok []
  | .mapping pairs => relationshipPairs entity pairs []
  | _ => .error (.draft (.relationshipsForm entity))

/-- Everything but the word false switches an option on. -/
def switchedOn : Value → Bool
  | .bool b => b
  | _ => true

def timestampWords : List Text := ["timestamps", "timestampstz"]

def softDeleteWords : List Text := ["softdeletes", "softdeletestz"]

/-- What the entries of a model have told so far: an entity without related names, and what was
declared for kinds of relationships, which is only looked at when the entity is made. -/
structure ModelParts where
  entity : Entity
  declared : Declarations := []
  deriving Repr

/-- Takes in one entry of a model. -/
def addEntry (m : ModelParts) (key : Text) (value : Value) : Except Failure ModelParts :=
  let e := m.entity
  let option := lower key
  if option = ("relationships" : Text) then
    (relationships e.name value).map fun declared => { m with declared }
  else if timestampWords.contains option then
    .ok { m with entity := { e with timestamps := switchedOn value } }
  else if softDeleteWords.contains option then
    .ok { m with entity := { e with softDeletes := switchedOn value } }
  else if option = ("meta" : Text) then .ok m
  else (column key value).map fun c => { m with entity := { e with columns := e.columns ++ [c] } }

def addEntries (m : ModelParts) : Mapping → Except Failure ModelParts
  | [] => .ok m
  | (key, value) :: rest =>
    (key.written.mapError .misuse).bind fun key =>
      (addEntry m key value).bind fun m => addEntries m rest

/-- Issues of a part of a model are issues of the model. -/
def modelFailure (name : Text) : Failure → Failure
  | .issues found => .draft (.invalidModel name found)
  | other => other

/-- An entity from its name and definition in a draft. Only the last part of a name with
slashes counts. -/
def model (name definition : Value) : Except Failure Entity :=
  (name.written.mapError .misuse).bind fun shown =>
    let start : ModelParts := { entity := { name := afterLast '/' shown } }
    let read (pairs : Mapping) : Except Failure Entity :=
      ((addEntries start pairs).bind fun m =>
        (m.entity.make m.declared).mapError .ofRefusal).mapError (modelFailure shown)
    match definition with
    | .null => read []
    | .mapping pairs => read pairs
    | _ => .error (.draft (.modelForm shown))

end ApiScaffold.Draft
