import ApiScaffold.Calendar
import ApiScaffold.Value.Binary64

/-!
# Values of draft documents

A draft is a tree of mappings, lists, tuples, sets and scalars. A mapping keeps its keys in the
order in which they came first, and a set its items; no order of them is promised for a set, and
this is the one that is taken. Two scalars are the same key when they are the same text, date or
bytes, or equal as numbers, where true and false count as one and zero; two tuples are when their
items are, one by one. Lists, sets and mappings cannot be keys.
-/
namespace ApiScaffold

inductive Value where
  | null
  | bool (b : Bool)
  | int (i : Int)
  | float (x : Binary64)
  | text (t : Text)
  | bytes (bs : List UInt8)
  | date (d : Date)
  | moment (m : Moment)
  | list (items : List Value)
  | tuple (items : List Value)
  | set (items : List Value)
  | mapping (pairs : List (Value × Value))
  deriving Repr, Inhabited

/-- The pairs of a mapping, in order. -/
abbrev Mapping := List (Value × Value)

namespace Value

/-- The integer that a number or a truth value is as a key. -/
def integral? : Value → Option Int
  | .bool b => some (if b then 1 else 0)
  | .int i => some i
  | .float x => x.toInt?
  | _ => none

/-- Whether two scalars are the same key. -/
def sameScalar : Value → Value → Bool
  | .null, .null => true
  | .text s, .text t => s == t
  | .bytes s, .bytes t => s == t
  | .date d, .date e => d == e
  | .moment m, .moment n =>
    m.offset.isSome == n.offset.isSome && m.instant == n.instant
  | .float x, .float y =>
    match x.toInt?, y.toInt? with
    | some i, some j => i == j
    | _, _ => x != .nan && x == y
  | a, b =>
    match a.integral?, b.integral? with
    | some i, some j => i == j
    | _, _ => false

/-- Whether the items of two tuples are the same keys, one by one. -/
def sameItems : List Value → List Value → Bool
  | [], [] => true
  | .tuple a :: rest, .tuple b :: more => sameItems a b && sameItems rest more
  | a :: rest, b :: more => sameScalar a b && sameItems rest more
  | _, _ => false

/-- Whether two values are the same key. -/
def sameKey : Value → Value → Bool
  | .tuple a, .tuple b => sameItems a b
  | a, b => sameScalar a b

def text? : Value → Option Text
  | .text t => some t
  | _ => none

/-- The items of a list or a tuple. -/
def items? : Value → Option (List Value)
  | .list items | .tuple items => some items
  | _ => none

/-- Empty texts and collections, zeros, false and null count as absent. -/
def isTruthy : Value → Bool
  | .null => false
  | .bool b => b
  | .int i => i != 0
  | .float x => !x.isZero
  | .text t => !t.isEmpty
  | .bytes bs => !bs.isEmpty
  | .date _ => true
  | .moment _ => true
  | .list items => !items.isEmpty
  | .tuple items => !items.isEmpty
  | .set items => !items.isEmpty
  | .mapping pairs => !pairs.isEmpty

/-- The name of a value's kind in messages about its kind alone. -/
def kindName : Value → Text
  | .null => "NoneType"
  | .bool _ => "bool"
  | .int _ => "int"
  | .float _ => "float"
  | .text _ => "str"
  | .bytes _ => "bytes"
  | .date _ => "date"
  | .moment _ => "datetime"
  | .list _ => "list"
  | .tuple _ => "tuple"
  | .set _ => "set"
  | .mapping _ => "dict"

mutual

/-- The kind of the first part of a value that keeps it from being a key, if there is one. -/
def unhashed? : Value → Option Text
  | .list items => some (kindName (.list items))
  | .tuple items => firstUnhashed? items
  | .set items => some (kindName (.set items))
  | .mapping pairs => some (kindName (.mapping pairs))
  | _ => none

def firstUnhashed? : List Value → Option Text
  | [] => none
  | v :: rest => (unhashed? v).or (firstUnhashed? rest)

end

/-- The name of a value's kind in messages about a missing ability. -/
def qualifiedKindName : Value → Text
  | .date _ => "datetime.date"
  | .moment _ => "datetime.datetime"
  | v => v.kindName

end Value

namespace Mapping

def get? (key : Value) : Mapping → Option Value
  | [] => none
  | (k, v) :: rest => if k.sameKey key then some v else get? key rest

def getText? (key : Text) (pairs : Mapping) : Option Value := get? (.text key) pairs

/-- Puts a value under a key: in its place when the key is there, else at the end. -/
def insert (key value : Value) : Mapping → Mapping
  | [] => [(key, value)]
  | (k, v) :: rest =>
    if k.sameKey key then (k, value) :: rest else (k, v) :: insert key value rest

def erase (key : Value) (pairs : Mapping) : Mapping := pairs.filter fun p => !p.1.sameKey key

/-- Inserts pairs one by one, so that a later value wins and a key keeps its first place. -/
def insertAll (pairs : Mapping) (into : Mapping) : Mapping :=
  pairs.foldl (fun acc p => insert p.1 p.2 acc) into

def ofPairs (pairs : Mapping) : Mapping := insertAll pairs []

end Mapping

end ApiScaffold
