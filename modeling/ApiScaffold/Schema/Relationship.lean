import ApiScaffold.Schema.Checked
import ApiScaffold.Value.Integer

/-!
# Relationships

The kinds of relationships in the order in which they are always walked, first those to one
record and then those to many. The related names of an entity are grouped by kind in this
order, whatever order they were declared in; within a kind they keep theirs.
-/
namespace ApiScaffold

open Text

inductive RelationshipKind where
  | belongsTo | hasOne | morphTo | morphOne | hasMany | belongsToMany | morphMany | morphToMany
  deriving DecidableEq, Repr

namespace RelationshipKind

def all : List RelationshipKind :=
  [belongsTo, hasOne, morphTo, morphOne, hasMany, belongsToMany, morphMany, morphToMany]

def text : RelationshipKind → Text
  | belongsTo => "belongsTo"
  | hasOne => "hasOne"
  | morphTo => "morphTo"
  | morphOne => "morphOne"
  | hasMany => "hasMany"
  | belongsToMany => "belongsToMany"
  | morphMany => "morphMany"
  | morphToMany => "morphToMany"

def ofText? (t : Text) : Option RelationshipKind := all.find? fun kind => kind.text = t

def isToMany : RelationshipKind → Bool
  | hasMany => true
  | belongsToMany => true
  | morphMany => true
  | morphToMany => true
  | _ => false

end RelationshipKind

/-- Related names by kind. -/
abbrev Relationships := List (RelationshipKind × List Text)

namespace Relationships

/-- Collects what is declared under one kind, in the order of the kinds. -/
def group (declared : Relationships) : Relationships :=
  RelationshipKind.all.filterMap fun kind =>
    match declared.filter (·.1 = kind) with
    | [] => none
    | groups => some (kind, groups.flatMap (·.2))

/-- Pairs of a kind and a related name, in order. -/
def pairs (rs : Relationships) : List (RelationshipKind × Text) :=
  rs.flatMap fun r => r.2.map fun name => (r.1, name)

/-- The parts that a value is gone through by. -/
def members : Value → Except Misuse (List Value)
  | .list items | .tuple items | .set items => .ok items
  | .mapping pairs => .ok (pairs.map (·.1))
  | .bytes bs => .ok (bs.map fun b => .int b.toNat)
  | .text t => .ok (t.map fun c => .text [c])
  | v => .error (.notIterable v.qualifiedKindName)

/-- Names as they are declared for a kind of relationships: all in one text, or each as a part. -/
inductive Targets where
  | joined (whole : Text)
  | parts (items : List Value)
  deriving Repr

/-- The text of a part. One that cannot be written is refused. -/
def nameOf (v : Value) : Checked Text := v.written.mapError fun _ => .issues [⟨[], .rule .writable⟩]

/-- The names that are declared, between the commas of a text or one by one. Blanks around a name
do not count, and neither do blank names. -/
def Targets.names (targets : Targets) : Checked (List Text) :=
  let names : Checked (List Text) := match targets with
    | joined whole => .ok (splitOn ',' whole)
    | parts items => items.mapM nameOf
  names.map fun names => (names.map trim).filter (· ≠ [])

/-- The names that are declared for a kind. -/
def named (declared : RelationshipKind × Targets) : Checked (RelationshipKind × List Text) :=
  declared.2.names.map fun names => (declared.1, names)

/-- The kind that a key names. -/
def kindOf (key : Value) : Checked RelationshipKind :=
  match key.text?.bind RelationshipKind.ofText? with
  | some kind => .ok kind
  | none => (nameOf key).bind fun _ => Checked.refuse (.rule (.knownKind key))

def targetsOf : Value → Checked Targets
  | .text t => .ok (.joined t)
  | v => ((members v).mapError .misuse).map .parts

/-- The names that a pair declares for a kind. -/
def ofPair (p : Value × Value) : Checked (RelationshipKind × List Text) :=
  (kindOf p.1).bind fun kind => (targetsOf p.2).bind fun targets => named (kind, targets)

/-- Relationships from a mapping of kinds to names. -/
def check (v : Value) : Checked Relationships :=
  if v.isTruthy then
    match v with
    | .mapping pairs => (pairs.mapM ofPair).map group
    | v => .error (.misuse (.noPairs v.qualifiedKindName))
  else .ok []

end Relationships

end ApiScaffold
