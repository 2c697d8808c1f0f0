import ApiScaffold.ClassNames
import ApiScaffold.Imports
import ApiScaffold.Manifest
import ApiScaffold.Stub.Template

/-!
# Data files

The file of the data object of an entity, from its class stub: a property for every column of
a request body, and then one for every related name whose property is not taken yet. Every
class that a property refers to is claimed for the imports. When the class of an enum cannot be
written, there is no file.
-/
namespace ApiScaffold.DataFile

open Text

def kind : Text := "Data"

def classStub : Text := "data.class.stub"

def baseClass : Text := "Spatie\\LaravelData\\Data"

def withCast : Text := "Spatie\\LaravelData\\Attributes\\WithCast"

def enumCast : Text := "Spatie\\LaravelData\\Casts\\EnumCast"

def dateCast : Text := "Spatie\\LaravelData\\Casts\\DateTimeInterfaceCast"

def dateClass : Text := "Carbon\\CarbonImmutable"

/-- A property: its name, its text and the classes that the text refers to. -/
structure Property where
  name : Text
  text : Text
  classes : List Text := []
  deriving DecidableEq, Repr

/-- Lines of one property. -/
def propertyLines (lines : List Text) : Text := join ("\n" ++ spaces 8) lines

/-- The property of a column, from its class, if it is an enum. -/
def propertyOf (c : Column) (cls : Option Text) : Property :=
  let declaration (type : Text) : Text :=
    "public " ++ (if c.nullable then ("?" : Text) else []) ++ type ++ " $" ++ c.name
  match cls with
  | some cls =>
    let type := afterLast '\\' cls
    { name := c.name,
      text := propertyLines
        ["#[WithCast(EnumCast::class, type: " ++ type ++ "::class)]", declaration type],
      classes := [withCast, enumCast, cls] }
  | none =>
    if c.isDate then
      { name := c.name,
        text := propertyLines
          ["#[WithCast(DateTimeInterfaceCast::class)]", declaration TypeMapping.dateWrapper],
        classes := [dateClass, withCast, dateCast] }
    else
      { name := c.name, text := declaration (TypeMapping.of c.dataType c.name none).target }

/-- The property of a column of an entity. -/
def columnProperty (s : Settings) (e : Entity) (c : Column) : Except Misuse Property :=
  (ClassNames.enumClass? s c e.name).map (propertyOf c)

/-- The property of a related name. -/
def relatedProperty (s : Settings) (r : RelationshipKind × Text) : Property :=
  let name := ClassNames.relationshipProperty r.2 r.1
  let cls := ClassNames.dataClass r.2
  let text : Text :=
    if r.1.isToMany then
      propertyLines ["/** @var array<" ++ cls ++ "> */", "public array $" ++ name]
    else "public " ++ cls ++ " $" ++ name
  { name, text, classes := [ClassNames.qualifiedData s r.2] }

/-- The properties whose names are neither blank nor taken, each name once. -/
def fresh (taken : List Text) : List Property → List Property
  | [] => []
  | p :: rest =>
    if p.name = [] ∨ taken.contains p.name then fresh taken rest
    else p :: fresh (p.name :: taken) rest

def columnProperties (s : Settings) (e : Entity) : Except Misuse (List Property) :=
  (e.columns.filter Column.isBodyColumn).mapM (columnProperty s e)

def relatedProperties (s : Settings) (e : Entity) : List Property :=
  fresh e.columnNames (e.related.map (relatedProperty s))

/-- All properties of the data object, in order. -/
def properties (s : Settings) (e : Entity) : Except Misuse (List Property) :=
  (columnProperties s e).map (· ++ relatedProperties s e)

/-- The imports of a data object with the given properties. -/
def imports (properties : List Property) : Imports :=
  ({} : Imports).addAll (baseClass :: properties.flatMap (·.classes))

/-- The properties with a comma behind each. -/
def propertyBlock (texts : List Text) : Text :=
  if texts = [] then [] else join (",\n" ++ spaces 8) texts ++ ","

def path (s : Settings) (e : Entity) : Text := ClassNames.dataPath s e.name

/-- The file of a data object with the given properties, from the text of the class stub. -/
def fileOf (s : Settings) (e : Entity) (stub : Text) (properties : List Property) : Artifact :=
  let slots : Stub.Slots :=
    [("namespace", s.qualify ["Data"]), ("class", ClassNames.dataClass e.name),
     ("imports", (imports properties).render),
     ("properties", propertyBlock (properties.map (·.text)))]
  { kind, path := path s e, content := Stub.render stub slots }

/-- The file of an entity. -/
def artifact (s : Settings) (e : Entity) (stub : Text) : Except Misuse Artifact :=
  (properties s e).map (fileOf s e stub)

end ApiScaffold.DataFile
