import ApiScaffold.ColumnType
import ApiScaffold.PhpLiteral
import ApiScaffold.Value.Integer
import ApiScaffold.Words

/-!
# Descriptions and example values

What the documentation says about a request column: one sentence made of its name, and a
PHP literal that could be its value. A few well-known names decide the example before the
type does; a literal that came out blank is replaced by the rule for strings, so an example
is never blank. Dates and years come from the given moment. There is no example when a date is
asked for and the calendar does not cover the moment, or when the first value of an enum cannot
be written.
-/
namespace ApiScaffold.Example

open Text

/-- The sentence that describes a column. -/
def describe (column : Text) : Text :=
  if isForeignKeyName column then
    "The ID of the " ++ Words.human (dropEnd 3 column) ++ "."
  else "The " ++ Words.human column ++ "."

/-- Needles in a lower-cased name with the text they stand for; the first hit counts. -/
def stringExamples : List (Text × Text) :=
  [("title", "Example Title"), ("name", "Example Name"),
   ("content", "This is example content for the article..."),
   ("description", "This is a description..."), ("excerpt", "Example excerpt"),
   ("slug", "example-slug"), ("code", "CODE123")]

def integerExamples : List (List Text × Text) :=
  [(["count", "quantity", "stock"], "10"), (["age"], "25")]

def decimalExamples : List (List Text × Text) :=
  [(["price", "amount"], "99.99"), (["rate", "percentage"], "0.85")]

def stringExample (column : Text) : Text :=
  let name := lower column
  match stringExamples.find? fun row => occursIn row.1 name with
  | some row => PhpLiteral.quote row.2
  | none => PhpLiteral.quote ("Example " ++ column)

def numberExample? (column : Text) (table : List (List Text × Text)) : Option Text :=
  let name := lower column
  (table.find? fun row => row.1.any (occursIn · name)).map (·.2)

/-- The example of an enum column that declares no values. -/
def defaultEnumExample : Text := "draft"

def firstValue? (values : Option Value) : Option Value :=
  (values.bind Value.items?).bind List.head?

/-- The first declared value of an enum column. -/
def enumExample (values : Option Value) : Except Misuse Text :=
  match firstValue? values with
  | some first => first.written.map PhpLiteral.quote
  | none => .ok (PhpLiteral.quote defaultEnumExample)

/-- The moment as text. -/
def dateExample (now : Moment) : Except Misuse Text :=
  match now.timestamp? with
  | some t => .ok (PhpLiteral.quote t)
  | none => .error .calendarRange

/-- An empty literal, with or without quotes around it. -/
def isBlankLiteral (literal : Text) : Bool :=
  let t := trim literal
  t = [] || t = "''" || t = "\"\""

/-- The example that the type of a column gives. -/
def byType (column dataType : Text) (values : Option Value) (now : Moment) :
    Except Misuse Text :=
  match TypeFamily.of? dataType with
  | some .integer =>
    .ok <| (numberExample? column integerExamples).getD <|
      if occursIn "year" (lower column) then ofNat now.date.year else "1"
  | some .decimal => .ok <| (numberExample? column decimalExamples).getD "1.00"
  | some .boolean => .ok "true"
  | some .enumeration => enumExample values
  | some .date => dateExample now
  | some .json => .ok <| PhpLiteral.quote "\x7b\x7d"
  | some .string => .ok <| stringExample column
  | none => .ok <| stringExample column

/-- The example that the name of a column gives, whatever its type is. -/
def byName? (column : Text) : Option Text :=
  let name := lower column
  if name = "email" then some <| PhpLiteral.quote "user@example.com"
  else if name = "password" then some <| PhpLiteral.quote "password123"
  else if occursIn "url" name then some <| PhpLiteral.quote "https://example.com"
  else if endsWith "_id" name then some "1"
  else none

/-- The example literal of a column with the given name, type and declared enum values. -/
def exampleValue (column dataType : Text) (values : Option Value) (now : Moment) :
    Except Misuse Text :=
  match byName? column with
  | some literal => .ok literal
  | none => (byType column dataType values now).map fun literal =>
    if isBlankLiteral literal then stringExample column else literal

end ApiScaffold.Example
