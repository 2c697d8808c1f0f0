import ApiScaffold.Draft.Controller
import ApiScaffold.Draft.Model
import ApiScaffold.Log
import ApiScaffold.Schema.Basic
import ApiScaffold.Settings

/-!
# Drafts

A draft is a mapping with a section for models, one for controllers and one for the
configuration; other sections are noted and left aside. Settings given from outside win over
those of the draft. The first thing found wrong ends the reading.
-/
namespace ApiScaffold.Draft

open Text

/-- The sections that belong to a draft but are not for this library. -/
def foreignSections : List Text := ["seeders", "components", "policies"]

def ownSections : List Text := ["models", "controllers", "config"]

/-- The note on a section that is left aside. -/
def sectionNotice? (key : Value) : Option Log.Entry :=
  match key with
  | .text t =>
    if foreignSections.contains t then
      some ⟨.info, .drafts, "Draft section '" ++ t ++ "' is not generated; ignoring it."⟩
    else if ownSections.contains t then none
    else some ⟨.warning, .drafts, "Unknown draft section '" ++ t ++ "' ignored."⟩
  | key => some ⟨.warning, .drafts, "Unknown draft section '" ++ key.display ++ "' ignored."⟩

def sectionNotices (raw : Mapping) : List Log.Entry := raw.filterMap fun p => sectionNotice? p.1

def parsedNotice (s : Schema) : Log.Entry :=
  ⟨.info, .drafts, "Parsed draft: " ++ ofNat s.entities.length ++ " models, " ++
    ofNat s.controllers.length ++ " controllers."⟩

/-- The key and the value that an item of a list of pairs stands for. -/
def pairOf (position : Nat) (item : Value) : Except Misuse (Value × Value) :=
  match Relationships.members item with
  | .error _ => .error (.noPair position)
  | .ok [key, value] =>
    match key.unhashed? with
    | some kind => .error (.unhashable kind)
    | none => .ok (key, value)
  | .ok parts => .error (.pairLength position parts.length)

def pairsOf : Nat → List Value → Except Misuse Mapping
  | _, [] => .ok []
  | i, item :: rest => do
    let pair ← pairOf i item
    let more ← pairsOf (i + 1) rest
    .ok (pair :: more)

/-- The mapping that a section of settings stands for: a mapping, a list of pairs, or nothing. -/
def settingsOf (v : Value) : Except Misuse Mapping :=
  if v.isTruthy then
    match v with
    | .mapping pairs => .ok pairs
    | v => (Relationships.members v).bind (pairsOf 0)
  else .ok []

/-- A section of a draft, where an empty one counts as absent. -/
def section? (raw : Mapping) (name : Text) : Option Value :=
  (Mapping.getText? name raw).filter Value.isTruthy

def models : Mapping → Except Failure (List Entity)
  | [] => .ok []
  | (name, definition) :: rest => do
    let e ← model name definition
    let more ← models rest
    .ok (e :: more)

def controllers (defaults : List Text) : Mapping → Except Failure (List Controller)
  | [] => .ok []
  | (name, definition) :: rest => do
    let c ← controller name definition defaults
    let more ← controllers defaults rest
    .ok (c :: more)

/-- The configuration of a draft under the given overrides. -/
def configuration (raw : Mapping) (overrides : Value) : Except Failure Configuration := do
  let own ← (settingsOf ((section? raw "config").getD .null)).mapError .misuse
  let given ← (settingsOf overrides).mapError .misuse
  match Configuration.check (.mapping (Mapping.insertAll given (Mapping.ofPairs own))) with
  | .ok c => .ok c
  | .error (.issues found) => .error (.draft (.invalidConfiguration found))
  | .error (.misuse m) => .error (.misuse m)

/-- The mapping of a section, which is empty when the section is absent. -/
def sectionPairs (raw : Mapping) (name : Text) (wrongForm : DraftError) :
    Except Failure Mapping :=
  match section? raw name with
  | none => .ok []
  | some (.mapping pairs) => .ok pairs
  | some _ => .error (.draft wrongForm)

/-- The schema and the configuration of a draft. -/
def parse (raw : Mapping) (overrides : Value) (sourceFile : Option Text) :
    Except Failure (Schema × Configuration) := do
  let configuration ← configuration raw overrides
  let modelPairs ← sectionPairs raw "models" .modelsForm
  let controllerPairs ← sectionPairs raw "controllers" .controllersForm
  let entities ← models modelPairs
  let controllers ← controllers configuration.settings.defaultControllerMethods controllerPairs
  match Schema.distinctEntities { entities, controllers, sourceFile } with
  | .ok s => .ok (s, configuration)
  | .error (.issues found) => .error (.draft (.invalidSchema found))
  | .error (.misuse m) => .error (.misuse m)

/-- The schema and the configuration of a draft, with what is noted while it is read. -/
def parseNoting (raw : Mapping) (overrides : Value) (sourceFile : Option Text) :
    List Log.Entry × Except Failure (Schema × Configuration) :=
  match parse raw overrides sourceFile with
  | .error f => (sectionNotices raw, .error f)
  | .ok (s, c) => (sectionNotices raw ++ [parsedNotice s], .ok (s, c))

end ApiScaffold.Draft
