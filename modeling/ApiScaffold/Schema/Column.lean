import ApiScaffold.ColumnType
import ApiScaffold.Schema.Checked
import ApiScaffold.Value.Integer

/-!
# Columns

A column has a name, a draft type as it was written, and free attributes such as the values
of an enum. Foreign keys and the columns that the framework keeps up itself are told by name
and are no part of a request body.
-/
namespace ApiScaffold

open Text

structure Column where
  name : Text
  dataType : Text := "string"
  nullable : Bool := false
  attributes : Mapping := []
  deriving Repr

namespace Column

/-- The columns that the framework keeps up itself. -/
def managedNames : List Text := ["id", "created_at", "updated_at", "deleted_at"]

def isForeignKey (c : Column) : Bool := isForeignKeyName c.name

def isManaged (c : Column) : Bool := managedNames.contains c.name

def isBodyColumn (c : Column) : Bool := !c.isManaged && !c.isForeignKey

def isEnum (c : Column) : Bool := isEnumType c.dataType

def isDate (c : Column) : Bool := isDateType c.dataType

/-- The declared values of an enum column, as they are written. -/
def values? (c : Column) : Option Value := c.attributes.getText? "values"

/-- The texts of the declared values, if they can be written. -/
def enumValues (c : Column) : Except Misuse (List Text) :=
  match c.values?.bind Value.items? with
  | some items => items.mapM Value.written
  | none => .ok []

/-- A one-line description. -/
def describe (c : Column) : Text :=
  "<Column " ++ c.name ++ " " ++ c.dataType ++ (if c.nullable then (" NULL" : Text) else []) ++ ">"

def fieldNames : List Text := ["name", "data_type", "nullable", "attributes"]

def attributesOf (v : Value) : Checked Mapping :=
  (Check.entries .ok v).map fun pairs => pairs.map fun p => (.text p.1, p.2)

def read (data : Mapping) : Checked Column :=
  (Checked.both (Check.field "name" none Check.nonEmptyText data)
    (Checked.both (Check.field "data_type" (some ("string" : Text)) Check.nonEmptyText data)
      (Checked.both (Check.field "nullable" (some false) Check.bool data)
        (Check.field "attributes" (some []) attributesOf data)))).map
    fun (name, dataType, nullable, attributes) => { name, dataType, nullable, attributes }

/-- A column from a mapping of its fields. -/
def check (v : Value) : Checked Column := Check.record .column fieldNames read v

/-- A column from its parts. -/
def make (name dataType : Text) (nullable : Bool) (attributes : Mapping) : Checked Column :=
  check (.mapping [(.text "name", .text name), (.text "data_type", .text dataType),
    (.text "nullable", .bool nullable), (.text "attributes", .mapping attributes)])

end Column

end ApiScaffold
