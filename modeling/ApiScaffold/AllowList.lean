import ApiScaffold.Imports
import ApiScaffold.PhpLiteral
import ApiScaffold.Schema.Basic

/-!
# Allow-lists

What a controller lets a query do: filter by keys and enums exactly and by text in part, sort
by the configured columns and always by `id`, and include the related records. Without an
entity there are small defaults. The class of exact filters is imported only when a filter
uses it.
-/
namespace ApiScaffold.AllowList

open Text

def filterClass : Text := "Spatie\\QueryBuilder\\AllowedFilter"

/-- The owner of the filters' claim on their class. -/
def filterOwner : Text := "allowed-filters"

inductive Filter where
  | exact (column : Text)
  | trashed
  | partly (column : Text)
  deriving DecidableEq, Repr

/-- The expression that makes a filter. -/
def Filter.text : Filter → Text
  | exact column => "AllowedFilter::exact(" ++ PhpLiteral.quote column ++ ")"
  | trashed => "AllowedFilter::trashed()"
  | partly column => PhpLiteral.quote column

/-- Whether a filter needs the class of filters. -/
def Filter.usesClass : Filter → Bool
  | partly _ => false
  | _ => true

def isExact (c : Column) : Bool := !c.isManaged && (c.isForeignKey || c.isEnum)

def isPartial (c : Column) : Bool :=
  !c.isManaged && !(c.isForeignKey || c.isEnum) && TypeFamily.of? c.dataType == some .string

/-- The filters of an entity: exact ones, the one for deleted records, partial ones. -/
def filters (e : Option Entity) : List Filter :=
  match e with
  | none => []
  | some e =>
    (e.columns.filter isExact).map (fun c => .exact c.name) ++
      (if e.softDeletes then [.trashed] else []) ++
      (e.columns.filter isPartial).map (fun c => .partly c.name)

/-- Claims the class of filters as long as a filter uses it. -/
def claimFilters (e : Option Entity) (imports : Imports) : Imports :=
  let claimed := imports.add filterClass filterOwner
  if (filters e).any Filter.usesClass then claimed else claimed.release filterClass filterOwner

def filtersText (e : Option Entity) : Text := PhpLiteral.array ((filters e).map Filter.text)

/-- The columns to sort by without an entity. -/
def fallbackSorts : List Text := ["created_at", "id"]

/-- The columns to sort by: those of the list that the entity has, and `id`. -/
def sorts (e : Option Entity) (sortable : List Text) : List Text :=
  match e with
  | none => fallbackSorts
  | some e =>
    let present (name : Text) : Bool :=
      e.columnNames.contains name || (e.timestamps && name == ("created_at" : Text))
    let found := sortable.filter present
    if found.contains ("id" : Text) then found else found ++ [("id" : Text)]

def sortsText (e : Option Entity) (sortable : List Text) : Text :=
  PhpLiteral.quotedArray (sorts e sortable)

/-- The related names that may be included, each once. -/
def includes (e : Option Entity) : List Text :=
  match e with
  | none => []
  | some e => distinct ((e.related.map fun r => Words.camel r.2).filter (· ≠ []))

def includesText (e : Option Entity) : Text := PhpLiteral.quotedArray (includes e)

end ApiScaffold.AllowList
