import ApiScaffold.Check.Report
import ApiScaffold.Draft.Controller
import ApiScaffold.Files.Tree
import ApiScaffold.Identifier
import ApiScaffold.Log
import ApiScaffold.Schema.Basic
import ApiScaffold.Settings

/-!
# Checks of a draft

The checks on a schema and its settings that go beyond their form: names that do not suit
code, types that are not known, related names that no model has, controllers without a model
or declared twice, and settings that can come to nothing. A check only reports. Two of them can
fail: looking for the stub directories, and writing down the values of an enum.
-/
namespace ApiScaffold.Check

open Text

/-- The words of expressions. -/
def expressionWords : List Text :=
  ["and", "clone", "empty", "eval", "exit", "fn", "include", "instanceof", "isset", "list",
   "match", "new", "or", "print", "require", "throw", "xor", "yield"]

/-- The words of statements. -/
def statementWords : List Text :=
  ["as", "break", "case", "catch", "continue", "declare", "default", "do", "echo", "else",
   "elseif", "enddeclare", "endfor", "endforeach", "endif", "endswitch", "endwhile", "finally",
   "for", "foreach", "goto", "if", "return", "switch", "try", "unset", "while"]

/-- The words of declarations. -/
def declarationWords : List Text :=
  ["abstract", "class", "const", "enum", "extends", "final", "function", "global", "implements",
   "insteadof", "interface", "namespace", "private", "protected", "public", "readonly", "static",
   "trait", "use", "var"]

/-- The words for types and for values that are words. -/
def typeWords : List Text :=
  ["array", "bool", "callable", "false", "float", "int", "iterable", "mixed", "never", "null",
   "object", "string", "true", "void"]

/-- The words that no class can have for its name. -/
def reservedWords : List Text :=
  expressionWords ++ statementWords ++ declarationWords ++ typeWords

/-- The names that findings are about. -/
def about (names : List (Text × Text)) : Mapping := names.map fun n => (.text n.1, .text n.2)

/-- A finding when a condition holds. -/
def findingIf (condition : Bool) (level : Severity) (code message : Text) (context : Mapping) :
    List Finding :=
  if condition then [⟨level, code, message, context⟩] else []

def isEntityName (name : Text) : Bool := asLine isIdentifier name

def isReserved (name : Text) : Bool := reservedWords.contains (lower name)

def entityName (e : Entity) : List Finding :=
  let context := about [("entity", e.name)]
  if !isEntityName e.name then
    [{ level := .error, code := "INVALID_ENTITY_NAME",
       message := "Entity name '" ++ e.name ++ "' is not a valid PHP identifier.", context }]
  else
    findingIf (!asLine isStudly e.name) .warning "ENTITY_NAME_NOT_STUDLY_CASE"
      ("Entity name '" ++ e.name ++
        "' is not StudlyCase. Generated class names may look odd.") context ++
    findingIf (isReserved e.name) .error "ENTITY_NAME_PHP_RESERVED"
      ("Entity name '" ++ e.name ++ "' is a PHP reserved word.") context

def entityNames (s : Schema) : Report := ⟨s.entities.flatMap entityName⟩

def columnName (e : Entity) (c : Column) : List Finding :=
  let context := about [("entity", e.name), ("column", c.name)]
  let column := "Column '" ++ c.name ++ "' of '" ++ e.name ++ "'"
  if !asLine isIdentifier c.name then
    [{ level := .error, code := "INVALID_COLUMN_NAME",
       message := column ++ " is not a valid identifier.", context }]
  else
    findingIf (!asLine isSnake c.name) .warning "COLUMN_NAME_NOT_SNAKE_CASE"
      (column ++ " is not snake_case.") context ++
    findingIf (TypeFamily.of? c.dataType).isNone .info "UNKNOWN_COLUMN_TYPE"
      ("Column '" ++ e.name ++ "." ++ c.name ++ "' has type '" ++ c.dataType ++
        "'; it will be treated as a string.") context

def columnNames (s : Schema) : Report :=
  ⟨s.entities.flatMap fun e => e.columns.flatMap (columnName e)⟩

def enumColumn (e : Entity) (c : Column) : Except Misuse (List Finding) :=
  if c.isEnum then
    c.enumValues.map fun values =>
      findingIf values.isEmpty .warning "ENUM_WITHOUT_VALUES"
        ("Enum column '" ++ e.name ++ "." ++ c.name ++ "' declares no values.")
        (about [("entity", e.name), ("column", c.name)])
  else .ok []

def enumColumnsOf (e : Entity) : Except Misuse (List Finding) :=
  (e.columns.mapM (enumColumn e)).map List.flatten

def enumColumns (s : Schema) : Except Misuse Report :=
  (s.entities.mapM enumColumnsOf).map fun found => ⟨found.flatten⟩

def relationship (s : Schema) (e : Entity) (r : RelationshipKind × Text) : List Finding :=
  findingIf (r.1 ≠ .morphTo && (s.entity? r.2).isNone) .warning "UNKNOWN_RELATIONSHIP_TARGET"
    ("'" ++ e.name ++ "' " ++ r.1.text ++ " '" ++ r.2 ++
      "', which is not a model of this draft.")
    (about [("entity", e.name), ("kind", r.1.text), ("related", r.2)])

/-- Related names should be models of the draft; what a record may belong to is only a name. -/
def relationships (s : Schema) : Report :=
  ⟨s.entities.flatMap fun e => e.related.flatMap (relationship s e)⟩

def schema (s : Schema) : Except Misuse Report :=
  (enumColumns s).map fun onEnums =>
    (((entityNames s).merge (columnNames s)).merge onEnums).merge (relationships s)

/-- The actions that a framework knows. -/
def knownMethods : List Text := Draft.webMethods

def controller (s : Schema) (settings : Settings) (before : List Controller) (c : Controller) :
    List Finding :=
  let key := c.qualifiedName
  let context := about [("controller", key)]
  findingIf (before.any fun d => d.qualifiedName = key) .error "DUPLICATE_CONTROLLER"
    ("Controller '" ++ key ++ "' is declared more than once.") context ++
  if !settings.covers c.space then
    [{ level := .info, code := "CONTROLLER_NOT_GENERATED",
       message := "Controller '" ++ key ++ "' is outside the '" ++ settings.controllerNamespace ++
         "' namespace and will be skipped.", context }]
  else
    let custom := c.methods.filter fun m => !knownMethods.contains m
    findingIf (s.entity? c.modelName).isNone .warning "CONTROLLER_WITHOUT_MODEL"
      ("Controller '" ++ key ++ "' has no model '" ++ c.modelName ++
        "'; default allow-lists will be generated.") context ++
    findingIf (custom ≠ []) .info "CUSTOM_CONTROLLER_METHODS"
      ("Controller '" ++ key ++ "' declares non-resource actions " ++ Value.shownTexts custom ++
        "; only actions with a method stub are generated.") context

def controllersFrom (s : Schema) (settings : Settings) (before : List Controller) :
    List Controller → List Finding
  | [] => []
  | c :: rest => controller s settings before c ++ controllersFrom s settings (c :: before) rest

def controllers (s : Schema) (settings : Settings) : Report :=
  ⟨controllersFrom s settings [] s.controllers⟩

def enumKey (key : Text) : List Finding :=
  findingIf (!asLine isColumnKey key) .error "INVALID_ENUM_CLASS_KEY"
    ("enum_classes key '" ++ key ++ "' must be 'column' or 'Entity.column'.")
    (about [("key", key)])

def stubDirectories (tree : Tree) (cwd : Path) : List Text → Except SystemError (List Finding)
  | [] => .ok []
  | dir :: rest => do
    let there ← tree.isDirectory (cwd.append (.ofText dir))
    let more ← stubDirectories tree cwd rest
    .ok (findingIf (!there) .warning "STUB_PATH_MISSING"
      ("Stub directory '" ++ dir ++ "' does not exist; packaged stubs will be used.")
      (about [("path", dir)]) ++ more)

def settings (tree : Tree) (cwd : Path) (s : Settings) : Except SystemError Report := do
  let idle := findingIf (!s.generateControllers && !s.generateData) .warning
    "NOTHING_TO_GENERATE" "Both generate_controllers and generate_data are disabled." []
  let noSuffixes := findingIf (s.enumStrategy = .suffix && s.enumSuffixes.isEmpty) .warning
    "NO_ENUM_SUFFIXES" ("enum_strategy is 'suffix' but enum_suffixes is empty; every enum " ++
      "class will be entity-qualified.") []
  let keys := s.enumClasses.flatMap fun p => enumKey p.1
  let stubs ← stubDirectories tree cwd s.stubPaths
  let sortsById := findingIf (s.sortableColumns.contains ("id" : Text)) .info
    "ID_IN_SORTABLE_COLUMNS" ("'id' is always appended to allowed sorts; listing it in " ++
      "sortable_columns only changes its position.") []
  .ok ⟨idle ++ noSuffixes ++ keys ++ stubs ++ sortsById⟩

/-- The entity that a key of the configured enum classes names, if it names one. -/
def keyEntity? (key : Text) : Option Text :=
  match cutAt '.' key with
  | (entity, some _) => if entity = [] then none else some entity
  | (_, none) => none

def enumKeyEntity (s : Schema) (key : Text) : List Finding :=
  match keyEntity? key with
  | none => []
  | some entity =>
    findingIf (s.entity? entity).isNone .warning "ENUM_CLASS_UNKNOWN_ENTITY"
      ("enum_classes key '" ++ key ++ "' refers to unknown entity '" ++ entity ++ "'.")
      (about [("key", key)])

/-- All checks. -/
def full (tree : Tree) (cwd : Path) (s : Schema) (config : Settings) :
    Except Failure Report := do
  let onSchema ← (schema s).mapError .misuse
  let onSettings ← (settings tree cwd config).mapError .system
  let onKeys : Report := ⟨config.enumClasses.flatMap fun p => enumKeyEntity s p.1⟩
  .ok (((onSchema.merge (controllers s config)).merge onSettings).merge onKeys)

def startNotice (s : Schema) : Log.Entry :=
  ⟨.info, .validators, "Starting full validation: " ++ ofNat s.entities.length ++
    " entities, " ++ ofNat s.controllers.length ++ " controllers."⟩

def schemaNotice (r : Report) : Log.Entry :=
  ⟨.info, .validators, "Schema validation complete: " ++ r.summary⟩

/-- What is said before the settings are checked. -/
def openingNotices (s : Schema) : List Log.Entry :=
  startNotice s :: ((schema s).map schemaNotice).toOption.toList

def verdictNotice (r : Report) : Log.Entry :=
  if r.isValid then ⟨.info, .validators, "Validation PASSED. " ++ r.summary⟩
  else ⟨.error, .validators, "Validation FAILED. " ++ r.summary⟩

end ApiScaffold.Check
