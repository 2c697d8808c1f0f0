import ApiScaffold.Misuse

/-!
# Issues

What a check finds wrong in a record: where it is, as the steps from the record down to it,
and what is the matter. The rules that span several parts of a record are kept as causes
too, with their wording in one place.
-/
namespace ApiScaffold

open Text Value

/-- The integers that fit into 64 bits with a sign. -/
def isMachineInteger (i : Int) : Bool := -9223372036854775808 ≤ i && i ≤ 9223372036854775807

inductive Step where
  | name (t : Text)
  | position (i : Int)
  deriving DecidableEq, Repr

namespace Step

/-- The step to the value under a key. A number of more than 64 bits is a name. -/
def ofKey (key : Value) : Step :=
  match key with
  | .text t => .name t
  | .bool b => .position (if b then 1 else 0)
  | .int i => if isMachineInteger i then .position i else .name (shown (.int i))
  | key => .name key.shown

/-- The step from a value to its own key. -/
def key : Step := .name "[key]"

end Step

inductive RecordKind where
  | column | entity | controller | schema | settings
  deriving DecidableEq, Repr

def RecordKind.text : RecordKind → Text
  | column => "ColumnInfo"
  | entity => "EntityInfo"
  | controller => "ControllerInfo"
  | schema => "SchemaDefinition"
  | settings => "GeneratorConfig"

/-- Rules beyond the shape of a single value. -/
inductive Rule where
  | knownKind (kind : Value)
  | distinctColumns (entity : Text) (repeated : List Text)
  | distinctEntities (repeated : List Text)
  | distinctMethods (methods : List Text)
  | namespaceForm (written : Text)
  | writable
  deriving Repr

def Rule.message : Rule → Text
  | knownKind kind => kind.shown ++ " is not a valid RelationshipKind"
  | distinctColumns entity names =>
    "Entity '" ++ entity ++ "' declares duplicate columns: " ++ shownTexts names
  | distinctEntities names => "Duplicate entity names: " ++ shownTexts names
  | distinctMethods methods => "Duplicate controller methods: " ++ shownTexts methods
  | namespaceForm written => "'" ++ written ++ "' is not a valid PHP namespace."
  | writable => Misuse.tooLongToWrite.message

inductive Fault where
  | missing
  | notText
  | undecodableText
  | emptyText
  | notBool
  | unclearBool
  | notList
  | notMapping
  | notRecord (kind : RecordKind)
  | notStrategy
  | unknownField
  | keyNotText
  | frozen
  | noSuchField (name : Text)
  | rule (r : Rule)
  deriving Repr

namespace Fault

def kind : Fault → Text
  | missing => "missing"
  | notText => "string_type"
  | undecodableText => "string_unicode"
  | emptyText => "string_too_short"
  | notBool => "bool_type"
  | unclearBool => "bool_parsing"
  | notList => "list_type"
  | notMapping => "dict_type"
  | notRecord _ => "model_type"
  | notStrategy => "enum"
  | unknownField => "extra_forbidden"
  | keyNotText => "invalid_key"
  | frozen => "frozen_instance"
  | noSuchField _ => "no_such_attribute"
  | rule _ => "value_error"

def message : Fault → Text
  | missing => "Field required"
  | notText => "Input should be a valid string"
  | undecodableText =>
    "Input should be a valid string, unable to parse raw data as a unicode string"
  | emptyText => "String should have at least 1 character"
  | notBool => "Input should be a valid boolean"
  | unclearBool => "Input should be a valid boolean, unable to interpret input"
  | notList => "Input should be a valid list"
  | notMapping => "Input should be a valid dictionary"
  | notRecord kind => "Input should be a valid dictionary or instance of " ++ kind.text
  | notStrategy => "Input should be 'suffix' or 'qualified'"
  | unknownField => "Extra inputs are not permitted"
  | keyNotText => "Keys should be strings"
  | frozen => "Instance is frozen"
  | noSuchField name => "Object has no attribute '" ++ name ++ "'"
  | rule r => "Value error, " ++ r.message

end Fault

structure Issue where
  place : List Step
  fault : Fault
  deriving Repr

def Issue.below (step : Step) (issue : Issue) : Issue := { issue with place := step :: issue.place }

end ApiScaffold
