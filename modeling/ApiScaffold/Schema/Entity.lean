import ApiScaffold.Schema.Column
import ApiScaffold.Schema.Relationship

/-!
# Entities

One model of a draft: a name, columns with different names, and related names by kind.
-/
namespace ApiScaffold

open Text

structure Entity where
  name : Text
  columns : List Column := []
  relationships : Relationships := []
  timestamps : Bool := true
  softDeletes : Bool := false
  deriving Repr

namespace Entity

def columnNames (e : Entity) : List Text := e.columns.map (·.name)

def column? (e : Entity) (name : Text) : Option Column := e.columns.find? fun c => c.name = name

/-- Pairs of a kind and a related name, in the order of the kinds. -/
def related (e : Entity) : List (RelationshipKind × Text) := e.relationships.pairs

/-- A one-line description. -/
def describe (e : Entity) : Text :=
  "<Entity " ++ e.name ++ " (" ++ ofNat e.columns.length ++ " cols, " ++
    ofNat e.related.length ++ " rels)>"

def fieldNames : List Text :=
  ["name", "columns", "relationships", "timestamps", "soft_deletes"]

private def read (data : Mapping) : Checked Entity :=
  (Checked.both (Check.field "name" none Check.nonEmptyText data)
    (Checked.both (Check.field "columns" (some []) (Check.list Column.check) data)
      (Checked.both (Check.field "relationships" (some []) Relationships.check data)
        (Checked.both (Check.field "timestamps" (some true) Check.bool data)
          (Check.field "soft_deletes" (some false) Check.bool data))))).map
    fun (name, columns, relationships, timestamps, softDeletes) =>
      { name, columns, relationships, timestamps, softDeletes }

/-- The rule that no two columns share a name. -/
def distinctColumns (e : Entity) : Checked Entity :=
  match repeated e.columnNames with
  | [] => .ok e
  | names => .refuse (.rule (.distinctColumns e.name names))

/-- An entity from a mapping of its fields. -/
def check (v : Value) : Checked Entity :=
  (Check.record .entity fieldNames read v).bind distinctColumns

/-- An entity from parts that were checked already, the name apart, and from what its draft
declares for kinds of relationships. -/
def make (e : Entity) (declared : List (RelationshipKind × Relationships.Targets)) :
    Checked Entity :=
  (Checked.both ((Check.nonEmptyText (.text e.name)).below (.name "name"))
    (Checked.below (.name "relationships") (declared.mapM Relationships.named))).bind fun p =>
      distinctColumns { e with relationships := Relationships.group p.2 }

end Entity

end ApiScaffold
