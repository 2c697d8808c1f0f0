import ApiScaffold.Failure
import ApiScaffold.Schema.Column
import ApiScaffold.Value.Integer

/-!
# Columns of a draft

A column is written as a mapping, or in shorthand: one type, which may have arguments after
a colon, and any number of modifiers, in any order. Nothing at all stands for a string column.
-/
namespace ApiScaffold.Draft

open Text

/-- The words of the shorthand that are no types. -/
def modifiers : List Text :=
  ["nullable", "unique", "index", "unsigned", "primary", "autoincrement", "foreign",
   "constrained", "default", "comment", "usecurrent", "usecurrentonupdate", "ondelete",
   "onupdate", "fulltext", "always"]

/-- An argument made of digits alone is a number. -/
def numberOrText (t : Text) : Except Misuse Value :=
  if t ≠ [] ∧ t.all isDigitLike then (Integer.ofText 10 t).map .int else .ok (.text t)

def listTypes : List Text := ["enum", "set"]

def decimalTypes : List Text := ["decimal", "unsigneddecimal", "float", "double"]

def lengthTypes : List Text := ["string", "char"]

/-- The attributes that the argument of a type stands for. -/
def typeArguments (keyword argument : Text) : Except Misuse Mapping := do
  let parts := ((splitOn ',' argument).map trim).filter (· ≠ [])
  let listed (name : Text) : Mapping := [(.text name, .list (parts.map .text))]
  if listTypes.contains keyword then .ok (listed "values")
  else match parts with
    | [] => .ok (listed "arguments")
    | part :: rest =>
      if decimalTypes.contains keyword then
        let precision ← numberOrText part
        match rest with
        | [] => .ok [(.text "precision", precision)]
        | second :: _ =>
          let scale ← numberOrText second
          .ok [(.text "precision", precision), (.text "scale", scale)]
      else if lengthTypes.contains keyword ∧ rest = [] then
        let length ← numberOrText part
        .ok [(.text "length", length)]
      else .ok (listed "arguments")

/-- What the words of a shorthand have told so far. -/
structure Shorthand where
  dataType : Text := []
  nullable : Bool := false
  attributes : Mapping := []
  deriving Repr

/-- Takes in one word. -/
def Shorthand.add (column : Text) (s : Shorthand) (word : Text) : Except Failure Shorthand :=
  let (head, rest) := cutAt ':' word
  let keyword := lower head
  let argument := rest.getD []
  if modifiers.contains keyword then
    if keyword = ("nullable" : Text) then .ok { s with nullable := true }
    else
      let value : Value := if argument = [] then .bool true else .text argument
      .ok { s with attributes := Mapping.insert (.text keyword) value s.attributes }
  else if s.dataType ≠ [] then .error (.draft (.twoTypes column s.dataType head))
  else if argument = [] then .ok { s with dataType := head }
  else
    match typeArguments keyword argument with
    | .error m => .error (.misuse m)
    | .ok found =>
      .ok { s with dataType := head, attributes := Mapping.insertAll found s.attributes }

def Shorthand.addAll (column : Text) : Shorthand → List Text → Except Failure Shorthand
  | s, [] => .ok s
  | s, word :: rest => (s.add column word).bind fun s => addAll column s rest

def defaultType : Text := "string"

def make (name dataType : Text) (nullable : Bool) (attributes : Mapping) :
    Except Failure Column :=
  (Column.make name dataType nullable attributes).mapError .ofRefusal

/-- A column of a draft from its name and definition. -/
def column (name : Text) (definition : Value) : Except Failure Column :=
  match definition with
  | .mapping pairs =>
    let nullable := (Mapping.getText? "nullable" pairs).any Value.isTruthy
    let attributes := Mapping.erase (.text "nullable") (Mapping.erase (.text "type") pairs)
    (((Mapping.getText? "type" pairs).getD (.text defaultType)).written.mapError .misuse).bind
      fun dataType => make name dataType nullable attributes
  | .null => make name defaultType false []
  | .text t =>
    (({} : Shorthand).addAll name (tokens t)).bind fun s =>
      make name (if s.dataType = [] then defaultType else s.dataType) s.nullable s.attributes
  | v => .error (.draft (.columnForm name v.kindName))

end ApiScaffold.Draft
