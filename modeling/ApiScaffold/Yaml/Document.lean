import ApiScaffold.Yaml.Scalar

/-!
# Documents

The value that a document stands for. Collections are filled level by level: everything in a
collection is looked at before anything in the collections inside it, so of several faults the
one nearest to the top counts, and on one level the one that comes first. A merge key brings in
the pairs of other mappings in front of a mapping's own ones, which therefore win.
-/
namespace ApiScaffold.Yaml

open Text

/-- A result, or the fault that counts and the level it is on. -/
abbrev Leveled (α : Type) := Except (Nat × Fault) α

/-- Two results, the first one met first. -/
def Leveled.both {α β : Type} (first : Leveled α) (second : Leveled β) : Leveled (α × β) :=
  match first, second with
  | .ok a, .ok b => .ok (a, b)
  | .error e, .ok _ => .error e
  | .ok _, .error e => .error e
  | .error e, .error f => .error (if f.1 < e.1 then f else e)

def Leveled.at {α : Type} (level : Nat) (result : Except Fault α) : Leveled α :=
  result.mapError fun f => (level, f)

/-- The tag that decides what a node becomes. -/
def Node.tag : Node → Tag
  | .scalar (some tag) _ _ => tag
  | .scalar none plain text => if plain then suggestedTag text else .str
  | .sequence tag _ => tag
  | .mapping tag _ => tag

/-- The text of a node that is read as a scalar: in a mapping, the one under the key that
stands for its own value. -/
def Node.scalarText : Nat → Node → Except Fault Text
  | 0, _ => .error .malformed
  | _ + 1, .scalar _ _ text => .ok text
  | _ + 1, .sequence _ _ => .error .malformed
  | fuel + 1, .mapping _ pairs =>
    match pairs.find? fun p => p.1.tag = .value with
    | some p => scalarText fuel p.2
    | none => .error .malformed

/-- The pairs of a mapping with those that its merge keys bring in. -/
def merged : Nat → List (Node × Node) → Except Fault (List (Node × Node))
  | 0, _ => .error .malformed
  | fuel + 1, pairs => do
    let pairsOf (n : Node) : Except Fault (List (Node × Node)) :=
      match n with
      | .mapping _ inner => merged fuel inner
      | _ => .error .malformed
    let brought ← (pairs.filter fun p => p.1.tag = .merge).mapM fun p =>
      match p.2 with
      | .sequence _ items => (items.mapM pairsOf).map fun groups => groups.reverse.flatten
      | n => pairsOf n
    let own := (pairs.filter fun p => p.1.tag ≠ .merge).map fun p =>
      if p.1.tag = .value then (Node.scalar (some .str) false ['='], p.2) else p
    .ok (brought.flatten ++ own)

/-- The kinds of values that cannot be keys. -/
def isCollectionTag (tag : Tag) : Bool :=
  tag == .seq || tag == .map || tag == .omap || tag == .pairs || tag == .set

/-- The value of a text under a tag for scalars. -/
def scalarValue (tag : Tag) (t : Text) : Except Fault Value :=
  match tag with
  | .null => .ok .null
  | .bool => (boolValue t).mapError .misuse
  | .int => (integerValue t).mapError .misuse
  | .float => (floatValue t).mapError .misuse
  | .binary => binaryValue t
  | .timestamp => (timestampValue t).mapError .misuse
  | .str => .ok (.text t)
  | _ => .error .malformed

/-- The value of a node that was met on a level. -/
def Node.value (fuel level : Nat) (n : Node) : Leveled Value :=
  match fuel with
  | 0 => .error (level, .malformed)
  | fuel + 1 =>
    let inside := level + 1
    let key (k : Node) : Leveled Value :=
      if isCollectionTag k.tag then .error (inside, .malformed) else value fuel inside k
    let pair (p : Node × Node) : Leveled (Value × Value) :=
      Leveled.both (key p.1) (value fuel inside p.2)
    let each {α β : Type} (read : α → Leveled β) (items : List α) : Leveled (List β) :=
      items.foldr (fun item rest =>
        (Leveled.both (read item) rest).map fun p => p.1 :: p.2) (.ok [])
    let single (item : Node) : Leveled Value :=
      match item with
      | .mapping _ [(k, v)] =>
        (Leveled.both (value fuel inside k) (value fuel inside v)).map fun p => .tuple [p.1, p.2]
      | _ => .error (inside, .malformed)
    let mapping : Leveled Mapping :=
      match n with
      | .mapping _ pairs =>
        (Leveled.at inside (merged fuel pairs)).bind fun pairs =>
          (each pair pairs).map Mapping.ofPairs
      | _ => .error (inside, .malformed)
    match n.tag with
    | .seq =>
      match n with
      | .sequence _ items => (each (value fuel inside) items).map .list
      | _ => .error (inside, .malformed)
    | .map => mapping.map .mapping
    | .set => mapping.map fun pairs => .set (pairs.map (·.1))
    | .omap | .pairs =>
      match n with
      | .sequence _ items => (each single items).map .list
      | _ => .error (inside, .malformed)
    | tag => Leveled.at level ((n.scalarText (fuel + 1)).bind (scalarValue tag))

/-- Whether a character may stand in a document at all. -/
def isDocumentChar (c : Char) : Bool :=
  let n := c.toNat
  n == 9 || n == 10 || n == 13 || (0x20 ≤ n && n ≤ 0x7E) || n == 0x85 ||
    (0xA0 ≤ n && n ≤ 0xFFFD) || 0x10000 ≤ n

/-- The value of the one document of a text; no document at all is null. -/
def load (t : Text) : Except Fault Value :=
  if t.all isDocumentChar then
    match Node.ofText? t with
    | .error f => .error f
    | .ok none => .ok .null
    | .ok (some n) => (n.value (t.length + 2) 0).mapError (·.2)
  else .error .malformed

end ApiScaffold.Yaml
