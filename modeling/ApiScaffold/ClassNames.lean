import ApiScaffold.Schema.Basic
import ApiScaffold.Settings

/-!
# Names of classes and files

The classes that generated code refers to and the files it is written to, as far as settings
and names decide them. The class of an enum is the one that its column declares, else the one
configured for the entity and column, else the one configured for the column; after that it
is guessed from the names.
-/
namespace ApiScaffold.ClassNames

open Text

/-- The class of an enum with the given name: in full when it has a backslash, else among the
enums of the application. -/
def qualifiedEnum (s : Settings) (name : Text) : Text :=
  if name.contains '\\' then stripLeft (· == '\\') name else s.qualify ["Enums", name]

/-- The class configured for a column. -/
def configuredEnum? (s : Settings) (entity column : Text) : Option Text :=
  let under (key : Text) := (s.enumClasses.find? fun p => p.1 = key).map (·.2)
  (under (entity ++ "." ++ column)).or (under column)

/-- The class guessed for a column. By suffix, a name with one of the configured endings is
taken alone; any other name follows the name of the entity. -/
def guessedEnum (s : Settings) (entity column : Text) : Text :=
  let name := Words.studly column
  if s.enumStrategy = .suffix ∧ endsWithAny s.enumSuffixes name then s.qualify ["Enums", name]
  else s.qualify ["Enums", entity ++ name]

/-- The class of an enum column that declares none. -/
def undeclaredEnum (s : Settings) (entity column : Text) : Text :=
  match configuredEnum? s entity column with
  | some name => qualifiedEnum s name
  | none => guessedEnum s entity column

/-- The class of an enum column of an entity. A declared one may be of any kind, but has to be
written. -/
def enumClass (s : Settings) (c : Column) (entity : Text) : Except Misuse Text :=
  match (Mapping.getText? "enum_class" c.attributes).filter Value.isTruthy with
  | some declared => declared.written.map (qualifiedEnum s)
  | none => .ok (undeclaredEnum s entity c.name)

/-- The class of a column of an entity, if it is an enum. -/
def enumClass? (s : Settings) (c : Column) (entity : Text) : Except Misuse (Option Text) :=
  if c.isEnum then (enumClass s c entity).map some else .ok none

def dataClass (name : Text) : Text := entityForm name ++ "Data"

def qualifiedData (s : Settings) (name : Text) : Text := s.qualify ["Data", dataClass name]

/-- The property of a data object for a related name: plural when there are many records. -/
def relationshipProperty (related : Text) (kind : RelationshipKind) : Text :=
  Words.camel <|
    if kind.isToMany then Inflection.plural related else Inflection.singular related

def qualifiedModel (s : Settings) (name : Text) : Text :=
  s.qualify [s.modelsNamespace, Words.studly name]

def resourceClass (name : Text) : Text := Words.studly name ++ "Resource"

def qualifiedResource (s : Settings) (space name : Text) : Text :=
  s.qualify ["Http\\Resources", space, resourceClass name]

def controllerSpace (s : Settings) (space : Text) : Text := s.qualify ["Http\\Controllers", space]

/-- The controller that generated ones extend. -/
def baseController (s : Settings) : Text :=
  s.qualify ["Http\\Controllers", s.controllerNamespace, "BaseApiController"]

/-- A path below the directory of the application. -/
def appPath (s : Settings) (parts : List Text) : Text :=
  join "/" (stripChar '/' s.appPath :: parts)

def controllerPath (s : Settings) (space cls : Text) : Text :=
  appPath s (("Http/Controllers" : Text) ::
    ((splitOn '\\' space).filter (· ≠ []) ++ [cls ++ ".php"]))

def dataPath (s : Settings) (name : Text) : Text := appPath s ["Data", dataClass name ++ ".php"]

end ApiScaffold.ClassNames
