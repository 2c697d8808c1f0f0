import ApiScaffold.Identifier
import ApiScaffold.Schema.Checked

/-!
# Settings

The settings of a generation and the names they are set by. Each setting is read from a value
in one way, whether it comes with a whole configuration or is assigned later, so the rules on
settings hold of every configuration: the root namespace has the form of a namespace without
outer backslashes, no list of methods repeats one, and the path of the application is not
empty. A configuration also knows which of its settings were given.
-/
namespace ApiScaffold

open Text

/-- How the class of an enum is guessed when none is declared for it. -/
inductive EnumStrategy where
  | suffix | qualified
  deriving DecidableEq, Repr

def EnumStrategy.text : EnumStrategy → Text
  | suffix => "suffix"
  | qualified => "qualified"

structure Settings where
  rootNamespace : Text := "App"
  appPath : Text := "app"
  modelsNamespace : Text := "Models"
  controllerNamespace : Text := "Api"
  /-- The directories that are searched for stubs before the packaged ones. -/
  stubPaths : List Text := []
  generateControllers : Bool := true
  generateData : Bool := true
  controllersForAllModels : Bool := false
  defaultControllerMethods : List Text := ["index", "store", "show", "update", "destroy"]
  /-- The actions that are written from method stubs. -/
  methodVerbs : List Text := ["store", "update", "destroy"]
  enumStrategy : EnumStrategy := .suffix
  enumSuffixes : List Text := ["Status", "Type"]
  /-- Classes of enums, by column or by entity and column. -/
  enumClasses : List (Text × Text) := []
  sortableColumns : List Text := ["created_at", "published_at", "updated_at", "title", "name"]
  documentForeignKeys : Bool := false
  atomicWrites : Bool := true
  deriving DecidableEq, Repr

inductive Setting where
  | rootNamespace | appPath | modelsNamespace | controllerNamespace | stubPaths
  | generateControllers | generateData | controllersForAllModels | defaultControllerMethods
  | methodVerbs | enumStrategy | enumSuffixes | enumClasses | sortableColumns
  | documentForeignKeys | atomicWrites
  deriving DecidableEq, Repr

namespace Setting

def all : List Setting :=
  [rootNamespace, appPath, modelsNamespace, controllerNamespace, stubPaths,
   generateControllers, generateData, controllersForAllModels, defaultControllerMethods,
   methodVerbs, enumStrategy, enumSuffixes, enumClasses, sortableColumns,
   documentForeignKeys, atomicWrites]

def text : Setting → Text
  | rootNamespace => "root_namespace"
  | appPath => "app_path"
  | modelsNamespace => "models_namespace"
  | controllerNamespace => "controller_namespace"
  | stubPaths => "stub_paths"
  | generateControllers => "generate_controllers"
  | generateData => "generate_data"
  | controllersForAllModels => "controllers_for_all_models"
  | defaultControllerMethods => "default_controller_methods"
  | methodVerbs => "method_verbs"
  | enumStrategy => "enum_strategy"
  | enumSuffixes => "enum_suffixes"
  | enumClasses => "enum_classes"
  | sortableColumns => "sortable_columns"
  | documentForeignKeys => "document_foreign_keys"
  | atomicWrites => "atomic_writes"

def ofText? (t : Text) : Option Setting := all.find? fun s => s.text = t

def namespaceOf (v : Value) : Checked Text :=
  (Check.text v).bind fun t =>
    let t := stripChar '\\' t
    if asLine isNamespace t then .ok t else Checked.refuse (.rule (.namespaceForm t))

def methodsOf (v : Value) : Checked (List Text) :=
  (Check.list Check.text v).bind fun methods =>
    if methods.Nodup then .ok methods else Checked.refuse (.rule (.distinctMethods methods))

def strategyOf (v : Value) : Checked EnumStrategy :=
  match Check.text v with
  | .ok t =>
    if t = EnumStrategy.suffix.text then .ok .suffix
    else if t = EnumStrategy.qualified.text then .ok .qualified
    else .refuse .notStrategy
  | .error _ => .refuse .notStrategy

def texts : Value → Checked (List Text) := Check.list Check.text

/-- What a value of this setting changes. -/
def read (setting : Setting) (v : Value) : Checked (Settings → Settings) :=
  match setting with
  | rootNamespace => (namespaceOf v).map fun x s => { s with rootNamespace := x }
  | appPath => (Check.nonEmptyText v).map fun x s => { s with appPath := x }
  | modelsNamespace => (Check.text v).map fun x s => { s with modelsNamespace := x }
  | controllerNamespace => (Check.text v).map fun x s => { s with controllerNamespace := x }
  | stubPaths => (texts v).map fun x s => { s with stubPaths := x }
  | generateControllers => (Check.bool v).map fun x s => { s with generateControllers := x }
  | generateData => (Check.bool v).map fun x s => { s with generateData := x }
  | controllersForAllModels =>
    (Check.bool v).map fun x s => { s with controllersForAllModels := x }
  | defaultControllerMethods =>
    (methodsOf v).map fun x s => { s with defaultControllerMethods := x }
  | methodVerbs => (methodsOf v).map fun x s => { s with methodVerbs := x }
  | enumStrategy => (strategyOf v).map fun x s => { s with enumStrategy := x }
  | enumSuffixes => (texts v).map fun x s => { s with enumSuffixes := x }
  | enumClasses => (Check.entries Check.text v).map fun x s => { s with enumClasses := x }
  | sortableColumns => (texts v).map fun x s => { s with sortableColumns := x }
  | documentForeignKeys => (Check.bool v).map fun x s => { s with documentForeignKeys := x }
  | atomicWrites => (Check.bool v).map fun x s => { s with atomicWrites := x }

end Setting

namespace Settings

private def textsValue (ts : List Text) : Value := .list (ts.map .text)

/-- The value that a setting would be read from. -/
def value (s : Settings) : Setting → Value
  | .rootNamespace => .text s.rootNamespace
  | .appPath => .text s.appPath
  | .modelsNamespace => .text s.modelsNamespace
  | .controllerNamespace => .text s.controllerNamespace
  | .stubPaths => textsValue s.stubPaths
  | .generateControllers => .bool s.generateControllers
  | .generateData => .bool s.generateData
  | .controllersForAllModels => .bool s.controllersForAllModels
  | .defaultControllerMethods => textsValue s.defaultControllerMethods
  | .methodVerbs => textsValue s.methodVerbs
  | .enumStrategy => .text s.enumStrategy.text
  | .enumSuffixes => textsValue s.enumSuffixes
  | .enumClasses => .mapping (s.enumClasses.map fun p => (.text p.1, .text p.2))
  | .sortableColumns => textsValue s.sortableColumns
  | .documentForeignKeys => .bool s.documentForeignKeys
  | .atomicWrites => .bool s.atomicWrites

/-- Whether controllers of a namespace are generated: those in the configured namespace and in
the namespaces below it. Outer backslashes do not count. -/
def covers (s : Settings) (space : Text) : Bool :=
  let space := stripChar '\\' space
  let base := stripChar '\\' s.controllerNamespace
  space == base || beginsWith (base ++ "\\") space

/-- A name below the root namespace. Empty parts do not count, nor do outer backslashes. -/
def qualify (s : Settings) (parts : List Text) : Text :=
  join "\\" (s.rootNamespace :: (parts.filter (· ≠ [])).map (stripChar '\\'))

end Settings

structure Configuration where
  settings : Settings := {}
  given : List Setting := []
  deriving Repr

namespace Configuration

def readFrom (data : Mapping) : List Setting → Checked Settings
  | [] => .ok {}
  | setting :: rest =>
    let change : Checked (Settings → Settings) :=
      match data.getText? setting.text with
      | none => .ok id
      | some v => (setting.read v).below (.name setting.text)
    (Checked.both change (readFrom data rest)).map fun p => p.1 p.2

def read (data : Mapping) : Checked Configuration :=
  (readFrom data Setting.all).map fun settings =>
    { settings, given := Setting.all.filter fun s => (data.getText? s.text).isSome }

/-- A configuration from a mapping of its settings. -/
def check (v : Value) : Checked Configuration :=
  Check.record .settings (Setting.all.map Setting.text) read v

/-- Assigns one setting; a refused value changes nothing. -/
def assign (c : Configuration) (name : Text) (v : Value) : Checked Configuration :=
  Checked.below (.name name) <|
    match Setting.ofText? name with
    | none => .refuse (.noSuchField name)
    | some setting =>
      (setting.read v).map fun change =>
        { settings := change c.settings,
          given := Setting.all.filter fun s => s = setting || c.given.contains s }

/-- The given settings as a mapping. -/
def dump (c : Configuration) : Mapping :=
  c.given.map fun s => (.text s.text, c.settings.value s)

end Configuration

end ApiScaffold
