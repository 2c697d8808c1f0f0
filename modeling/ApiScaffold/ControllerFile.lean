import ApiScaffold.AllowList
import ApiScaffold.ClassNames
import ApiScaffold.Example
import ApiScaffold.Manifest
import ApiScaffold.Stub.Template

/-!
# Controller files

The file of an API controller, from its class stub and the method stubs that were found.
The methods are those that the controller declares and the settings let be written, in
declared order. Every class that the text refers to is claimed for the imports. A body
parameter is documented with an example and, if it is an enum, by its class; when one of them
cannot be had, there is no file.
-/
namespace ApiScaffold.ControllerFile

open Text PhpLiteral

def kind : Text := "API Controller"

def classStub : Text := "api-controller.class.stub"

def methodStub (verb : Text) : Text := "api-controller.method." ++ verb ++ ".stub"

def jsonResponse : Text := "Illuminate\\Http\\JsonResponse"

def bodyParameterClass : Text := "Dedoc\\Scramble\\Attributes\\BodyParameter"

def pathParameterClass : Text := "Dedoc\\Scramble\\Attributes\\PathParameter"

/-- Whether the method of an action takes a data object. -/
def hasBody (verb : Text) : Bool := verb == ("store" : Text) || verb == ("update" : Text)

/-- What a method does to the record that its route names, if it names one. -/
def pathPurpose? (verb : Text) : Option Text :=
  if verb = ("update" : Text) then some "to update"
  else if verb = ("destroy" : Text) then some "to delete"
  else none

/-- Whether a column is documented. Managed columns never are. -/
def documents (s : Settings) (c : Column) : Bool :=
  !c.isManaged && (!c.isForeignKey || s.documentForeignKeys)

def documented (s : Settings) (e : Entity) : List Column := e.columns.filter (documents s)

/-- The attribute that documents a column, from its class, if it is an enum, and its example. -/
def bodyText (c : Column) (cls : Option Text) (literal : Text) : Text :=
  let mapping := TypeMapping.of c.dataType c.name cls
  let format : List Text := match mapping.docFormat with
    | some format => ["format: " ++ quote format]
    | none => []
  let parts : List Text :=
    [quote c.name, "description: " ++ quote (Example.describe c.name),
     "type: " ++ quote mapping.docType] ++ format ++
    [("required: " : Text) ++ (if c.nullable then ("false" : Text) else "true"),
     ("example: " : Text) ++ literal]
  "#[BodyParameter(" ++ join ", " parts ++ ")]"

/-- The attribute that documents a column of an entity. -/
def bodyParameter (s : Settings) (now : Moment) (e : Entity) (c : Column) : Except Misuse Text :=
  (ClassNames.enumClass? s c e.name).bind fun cls =>
    (Example.exampleValue c.name c.dataType c.values? now).map (bodyText c cls)

/-- The attribute that documents the record of a route. -/
def pathParameter (model purpose : Text) : Text :=
  let record := Words.camel model
  "#[PathParameter(" ++ quote record ++ ", description: " ++
    quote ("The " ++ record ++ " " ++ purpose ++ ".") ++ ", type: 'integer', example: 1)]"

/-- The attributes of a method, one to a line. -/
def attributeLines (s : Settings) (now : Moment) (verb model : Text) (e : Option Entity) :
    Except Misuse (List Text) :=
  match e with
  | none => .ok []
  | some e =>
    let path := ((pathPurpose? verb).map (pathParameter model)).toList
    if hasBody verb then
      ((documented s e).mapM (bodyParameter s now e)).map fun body => path ++ body
    else .ok path

/-- Lines at the depth of a method, nothing when there are none. -/
def attributeBlock (lines : List Text) : Text :=
  if lines = [] then [] else spaces 4 ++ join ("\n" ++ spaces 4) lines ++ "\n"

/-- A method from its stub. -/
def methodText (s : Settings) (now : Moment) (c : Controller) (e : Option Entity)
    (verb stub : Text) : Except Misuse Text :=
  let model := c.modelName
  (attributeLines s now verb model e).map fun lines =>
    let common : Stub.Slots :=
      [("modelVariable", Words.camel model), ("modelClass", Words.studly model),
       ("modelName", Words.human model), ("resourceClass", ClassNames.resourceClass model),
       (verb ++ "Attributes", attributeBlock lines)]
    let ofBody : Stub.Slots :=
      if hasBody verb then [("dataClass", ClassNames.dataClass model)] else []
    Stub.render stub (common ++ ofBody)

/-- The declared actions that the settings let be written. -/
def writtenVerbs (s : Settings) (c : Controller) : List Text :=
  c.methods.filter (s.methodVerbs.contains ·)

/-- The classes that a method refers to. -/
def methodClasses (s : Settings) (model : Text) (e : Option Entity) (verb : Text) : List Text :=
  let attributes : List Text := match e with
    | none => []
    | some e =>
      (if (pathPurpose? verb).isSome then [pathParameterClass] else []) ++
        (if hasBody verb ∧ documented s e ≠ [] then [bodyParameterClass] else [])
  attributes ++ (if hasBody verb then [ClassNames.qualifiedData s model] else [])

/-- The imports of a controller whose file has methods for the given actions. -/
def imports (s : Settings) (c : Controller) (e : Option Entity) (verbs : List Text) : Imports :=
  let model := c.modelName
  let ofEntity : List Text := match e with
    | none => []
    | some _ =>
      [ClassNames.qualifiedModel s model, ClassNames.qualifiedResource s c.space model]
  let start := ({} : Imports).addAll (jsonResponse :: ClassNames.baseController s :: ofEntity)
  (AllowList.claimFilters e start).addAll (verbs.flatMap (methodClasses s model e))

/-- The methods in the body of the class, a blank line before each. -/
def methodBlock (methods : List Text) : Text :=
  if methods = [] then [] else "\n" ++ join "\n" methods

def path (s : Settings) (c : Controller) : Text :=
  ClassNames.controllerPath s c.space c.className

/-- The file, from the text of the class stub and the actions and texts of the methods. -/
def artifact (s : Settings) (c : Controller) (e : Option Entity) (stub : Text)
    (methods : List (Text × Text)) : Artifact :=
  let model := c.modelName
  let slots : Stub.Slots :=
    [("namespace", ClassNames.controllerSpace s c.space), ("class", c.className),
     ("model", model), ("modelClass", Words.studly model ++ "::class"),
     ("resourceClass", ClassNames.resourceClass model ++ "::class"),
     ("allowedFilters", AllowList.filtersText e),
     ("allowedSorts", AllowList.sortsText e s.sortableColumns),
     ("allowedIncludes", AllowList.includesText e),
     ("methods", methodBlock (methods.map (·.2))),
     ("imports", (imports s c e (methods.map (·.1))).render)]
  { kind, path := path s c, content := Stub.render stub slots }

end ApiScaffold.ControllerFile
