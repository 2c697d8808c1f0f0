import ApiScaffold.Schema.Controller
import ApiScaffold.Schema.Entity

/-!
# The schema of a draft

All entities and controllers of one draft. Entities have different names and are found by
name, or else by the singular capitalised form of a name.
-/
namespace ApiScaffold

open Text

structure Schema where
  entities : List Entity := []
  controllers : List Controller := []
  sourceFile : Option Text := none
  deriving Repr

namespace Schema

def entityNames (s : Schema) : List Text := s.entities.map (·.name)

def named? (s : Schema) (name : Text) : Option Entity := s.entities.find? fun e => e.name = name

/-- The entity that a name of any number and spelling refers to. -/
def entity? (s : Schema) (name : Text) : Option Entity :=
  match s.named? name with
  | some e => some e
  | none => s.named? (entityForm name)

/-- A one-line description. -/
def describe (s : Schema) : Text :=
  "<SchemaDefinition " ++ ofNat s.entities.length ++ " entities, " ++
    ofNat s.controllers.length ++ " controllers>"

def fieldNames : List Text := ["entities", "controllers", "source_file"]

private def read (data : Mapping) : Checked Schema :=
  (Checked.both (Check.field "entities" (some []) (Check.list Entity.check) data)
    (Checked.both (Check.field "controllers" (some []) (Check.list Controller.check) data)
      (Check.field "source_file" (some none) Check.optionalText data))).map
    fun (entities, controllers, sourceFile) => { entities, controllers, sourceFile }

/-- The rule that no two entities share a name. -/
def distinctEntities (s : Schema) : Checked Schema :=
  match repeated s.entityNames with
  | [] => .ok s
  | names => .refuse (.rule (.distinctEntities names))

/-- A schema from a mapping of its fields. -/
def check (v : Value) : Checked Schema :=
  (Check.record .schema fieldNames read v).bind distinctEntities

end Schema

end ApiScaffold
