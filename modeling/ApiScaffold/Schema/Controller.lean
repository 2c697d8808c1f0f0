import ApiScaffold.Inflection
import ApiScaffold.Schema.Checked
import ApiScaffold.Words

/-!
# Controllers

A controller has a name, a namespace below the namespace of all controllers and the actions
that it declares. Its class and the model that it serves follow from its name.
-/
namespace ApiScaffold

open Text

/-- The form of a name that entities are looked up by when the name itself is none of theirs:
singular and capitalised. -/
def entityForm (name : Text) : Text := Words.studly (Inflection.singular name)

structure Controller where
  name : Text
  space : Text := "Api"
  methods : List Text := []
  deriving DecidableEq, Repr

namespace Controller

def classSuffix : Text := "Controller"

/-- The name without the ending of controller classes, unless it is all there is. -/
def stem (c : Controller) : Text :=
  if endsWith classSuffix c.name && c.name ≠ classSuffix then
    dropEnd classSuffix.length c.name
  else c.name

def className (c : Controller) : Text := Words.studly c.stem ++ classSuffix

/-- The name of the entity that the controller serves. -/
def modelName (c : Controller) : Text := entityForm c.stem

/-- The class with its namespace, as reports name a controller. -/
def qualifiedName (c : Controller) : Text := c.space ++ "\\" ++ c.className

/-- A one-line description. -/
def describe (c : Controller) : Text :=
  "<Controller " ++ c.qualifiedName ++ " " ++ Value.shownTexts c.methods ++ ">"

def fieldNames : List Text := ["name", "namespace", "methods"]

private def read (data : Mapping) : Checked Controller :=
  (Checked.both (Check.field "name" none Check.nonEmptyText data)
    (Checked.both (Check.field "namespace" (some ("Api" : Text)) Check.text data)
      (Check.field "methods" (some []) (Check.list Check.text) data))).map
    fun (name, space, methods) => { name, space, methods }

/-- A controller from a mapping of its fields. -/
def check (v : Value) : Checked Controller := Check.record .controller fieldNames read v

/-- A controller from its parts. -/
def make (c : Controller) : Checked Controller :=
  ((Check.nonEmptyText (.text c.name)).below (.name "name")).map fun _ => c

end Controller

end ApiScaffold
