import ApiScaffold.Text.Classes

/-!
# Column types

The families of draft types, told apart by lower case, and what a column becomes: the PHP
type of its property and the type and format of its documentation. A column whose name ends
in `_id` is an integer whatever its type says, and an unknown type counts as a string.
-/
namespace ApiScaffold

open Text

inductive TypeFamily where
  | integer | decimal | boolean | json | date | enumeration | string
  deriving DecidableEq, Repr

namespace TypeFamily

/-- The families in the order in which a type is looked up. -/
def all : List TypeFamily := [integer, decimal, boolean, json, date, enumeration, string]

def members : TypeFamily → List Text
  | integer =>
    ["id", "foreignid", "increments", "bigincrements", "integer", "unsignedinteger",
     "biginteger", "unsignedbiginteger", "tinyinteger", "unsignedtinyinteger", "smallinteger",
     "unsignedsmallinteger", "mediuminteger", "unsignedmediuminteger"]
  | decimal => ["decimal", "unsigneddecimal", "float", "double"]
  | boolean => ["boolean"]
  | json => ["json", "jsonb"]
  | date => ["date", "datetime", "datetimetz", "timestamp", "timestamptz"]
  | enumeration => ["enum"]
  | string => ["string", "text", "longtext"]

/-- The family of a draft type, whatever the case it is written in. -/
def of? (dataType : Text) : Option TypeFamily :=
  all.find? fun family => family.members.contains (lower dataType)

end TypeFamily

def isDateType (dataType : Text) : Bool := TypeFamily.of? dataType == some .date

def isEnumType (dataType : Text) : Bool := TypeFamily.of? dataType == some .enumeration

/-- Foreign keys are recognised by name alone. -/
def isForeignKeyName (name : Text) : Bool := endsWith "_id" name

structure TypeMapping where
  target : Text
  docType : Text
  docFormat : Option Text := none
  deriving DecidableEq, Repr

namespace TypeMapping

def integer : TypeMapping := ⟨"int", "integer", none⟩

def string : TypeMapping := ⟨"string", "string", none⟩

/-- The class that wraps dates and times. -/
def dateWrapper : Text := "CarbonImmutable"

/-- What a column becomes. An enum column takes the last segment of its class as its type,
and is a string as long as no class is known for it. -/
def of (dataType name : Text) (enumClass : Option Text) : TypeMapping :=
  if isForeignKeyName name then integer
  else match TypeFamily.of? dataType with
    | some .enumeration =>
      match enumClass with
      | some cls => if cls = [] then string else ⟨afterLast '\\' cls, "string", none⟩
      | none => string
    | some .integer => integer
    | some .decimal => ⟨"float", "number", none⟩
    | some .boolean => ⟨"bool", "boolean", none⟩
    | some .json => ⟨"array", "object", none⟩
    | some .date => ⟨dateWrapper, "string", some "date-time"⟩
    | some .string => string
    | none => string

end TypeMapping

end ApiScaffold
