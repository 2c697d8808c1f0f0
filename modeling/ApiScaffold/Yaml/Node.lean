import ApiScaffold.Yaml.Token

/-!
# Nodes

The tree that the tokens of a document stand for, with an alias replaced by the node it
refers to. A node has a tag: the one it is marked with, or the one that its kind and, for a
plain scalar, its text suggest. There is one document in a text, or none.
-/
namespace ApiScaffold.Yaml

open Text

inductive Tag where
  | null | bool | int | float | binary | timestamp | omap | pairs | set | str | seq | map | merge
  | value
  | other (name : Text)
  deriving DecidableEq, Repr

namespace Tag

def standardStart : Text := "tag:yaml.org,2002:"

def standard : List (Text × Tag) :=
  [("null", null), ("bool", bool), ("int", int), ("float", float), ("binary", binary),
   ("timestamp", timestamp), ("omap", omap), ("pairs", pairs), ("set", set), ("str", str),
   ("seq", seq), ("map", map), ("merge", merge), ("value", value)]

def ofText (name : Text) : Tag :=
  let found := standard.find? fun entry => standardStart ++ entry.1 = name
  (found.map (·.2)).getD (other name)

end Tag

/-- A node, where a scalar without a tag of its own also says whether its text may suggest one. -/
inductive Node where
  | scalar (tag : Option Tag) (plain : Bool) (text : Text)
  | sequence (tag : Tag) (items : List Node)
  | mapping (tag : Tag) (pairs : List (Node × Node))
  deriving Repr, Inhabited

/-- The tokens ahead, the meanings of handles, and the nodes with a name: none yet for a node
that is still being read. -/
structure Reader where
  tokens : List Token
  handles : List (Text × Text) := []
  anchors : List (Text × Option Node) := []

abbrev Read (α : Type) := StateT Reader (Except Fault) α

namespace Read

def peek : Read Token := do
  match (← get).tokens with
  | [] => pure (.fault .malformed)
  | t :: _ => pure t

def advance : Read Unit := modify fun r => { r with tokens := r.tokens.drop 1 }

/-- Ends the reading at a token that cannot stand where it does. -/
def unexpected {α : Type} : Read α := do
  match ← peek with
  | .fault f => throw f
  | _ => throw .malformed

end Read

/-- The node that an absent scalar stands for. -/
def emptyNode : Node := .scalar none true []

/-- The marks in front of a node. -/
structure Marks where
  anchor : Option Text := none
  tag : Option WrittenTag := none

def readMarks : Read Marks := do
  match ← Read.peek with
  | .anchor name =>
    Read.advance
    match ← Read.peek with
    | .tag t => Read.advance; pure ⟨some name, some t⟩
    | _ => pure ⟨some name, none⟩
  | .tag t =>
    Read.advance
    match ← Read.peek with
    | .anchor name => Read.advance; pure ⟨some name, some t⟩
    | _ => pure ⟨none, some t⟩
  | _ => pure {}

/-- The tag that a written one means. A lone exclamation mark leaves the tag open. -/
def meaning (written : Option WrittenTag) : Read (Option Text) := do
  match written with
  | none => pure none
  | some ⟨none, name⟩ => pure (some name)
  | some ⟨some handle, rest⟩ =>
    match (← get).handles.find? fun h => h.1 = handle with
    | some h => pure (some (h.2 ++ rest))
    | none => throw .malformed

def openTag : Text := "!"

def tagOr (default : Tag) (meant : Option Text) : Tag :=
  match meant with
  | none => default
  | some t => if t = openTag then default else .ofText t

def setAnchor (anchor : Option Text) (node : Option Node) : Read Unit :=
  match anchor with
  | none => pure ()
  | some name => modify fun r =>
      { r with anchors := (name, node) :: r.anchors.filter fun a => a.1 ≠ name }

/-- Reserves the name of a node that begins here. A name is given once. -/
def beginAnchor (anchor : Option Text) : Read Unit := do
  match anchor with
  | none => pure ()
  | some name =>
    if (← get).anchors.any fun a => a.1 = name then throw .malformed
    else setAnchor anchor none

def aliasedNode (name : Text) : Read Node := do
  match (← get).anchors.find? fun a => a.1 = name with
  | some (_, some node) => pure node
  | _ => throw .malformed

/-- A scalar with the given marks. -/
def scalarNode (meant : Option Text) (plain : Bool) (text : Text) : Node :=
  match meant with
  | none => .scalar none plain text
  | some t => if t = openTag then .scalar none true text else .scalar (some (.ofText t)) false text

mutual

/-- A node. In a block it may be a block collection, and after a key also a sequence that does
not stand further in. -/
def node : Nat → (block indentless : Bool) → Read Node
  | 0, _, _ => throw .malformed
  | fuel + 1, block, indentless => do
    match ← Read.peek with
    | .«alias» name => Read.advance; aliasedNode name
    | _ =>
      let marks ← readMarks
      let meant ← meaning marks.tag
      let next ← Read.peek
      let collection (content : Read Node) : Read Node := do
        beginAnchor marks.anchor
        let n ← content
        setAnchor marks.anchor (some n)
        pure n
      let sequence (items : Read (List Node)) : Read Node :=
        collection do pure (.sequence (tagOr .seq meant) (← items))
      let mapping (pairs : Read (List (Node × Node))) : Read Node :=
        collection do pure (.mapping (tagOr .map meant) (← pairs))
      match next with
      | .blockEntry =>
        if indentless then sequence (indentlessItems fuel)
        else if marks.anchor.isSome || marks.tag.isSome then
          collection do pure (scalarNode meant true [])
        else Read.unexpected
      | .scalar plain text => Read.advance; collection do pure (scalarNode meant plain text)
      | .flowSequenceStart => Read.advance; sequence (flowItems fuel true)
      | .flowMappingStart => Read.advance; mapping (flowPairs fuel true)
      | .sequenceStart =>
        if block then do Read.advance; sequence (blockItems fuel)
        else if marks.anchor.isSome || marks.tag.isSome then
          collection do pure (scalarNode meant true [])
        else Read.unexpected
      | .mappingStart =>
        if block then do Read.advance; mapping (blockPairs fuel)
        else if marks.anchor.isSome || marks.tag.isSome then
          collection do pure (scalarNode meant true [])
        else Read.unexpected
      | _ =>
        if marks.anchor.isSome || marks.tag.isSome then
          collection do pure (scalarNode meant true [])
        else Read.unexpected

def blockItems : Nat → Read (List Node)
  | 0 => throw .malformed
  | fuel + 1 => do
    match ← Read.peek with
    | .blockEntry =>
      Read.advance
      let item ← match ← Read.peek with
        | .blockEntry | .blockEnd => pure emptyNode
        | _ => node fuel true false
      pure (item :: (← blockItems fuel))
    | .blockEnd => Read.advance; pure []
    | _ => Read.unexpected

def indentlessItems : Nat → Read (List Node)
  | 0 => throw .malformed
  | fuel + 1 => do
    match ← Read.peek with
    | .blockEntry =>
      Read.advance
      let item ← match ← Read.peek with
        | .blockEntry | .key | .value | .blockEnd => pure emptyNode
        | _ => node fuel true false
      pure (item :: (← indentlessItems fuel))
    | _ => pure []

def blockPairs : Nat → Read (List (Node × Node))
  | 0 => throw .malformed
  | fuel + 1 => do
    match ← Read.peek with
    | .key =>
      Read.advance
      let k ← blockPart fuel
      let v ← match ← Read.peek with
        | .value => Read.advance; blockPart fuel
        | _ => pure emptyNode
      pure ((k, v) :: (← blockPairs fuel))
    | .value =>
      Read.unexpected
    | .blockEnd => Read.advance; pure []
    | _ => Read.unexpected

/-- A key or a value of a block mapping, which may be absent. -/
def blockPart : Nat → Read Node
  | 0 => throw .malformed
  | fuel + 1 => do
    match ← Read.peek with
    | .key | .value | .blockEnd => pure emptyNode
    | _ => node fuel true true

def flowItems : Nat → Bool → Read (List Node)
  | 0, _ => throw .malformed
  | fuel + 1, first => do
    match ← Read.peek with
    | .flowSequenceEnd => Read.advance; pure []
    | t =>
      if !first then
        match t with
        | .flowEntry => Read.advance
        | _ => Read.unexpected
      match ← Read.peek with
      | .key =>
        Read.advance
        let k ← flowSequencePart fuel
        let v ← match ← Read.peek with
          | .value => Read.advance; flowSequencePart fuel
          | _ => pure emptyNode
        pure (.mapping .map [(k, v)] :: (← flowItems fuel false))
      | .flowSequenceEnd => Read.advance; pure []
      | _ => do
        let item ← node fuel false false
        pure (item :: (← flowItems fuel false))

/-- A key or a value that stands for a mapping of one pair in a flow sequence. -/
def flowSequencePart : Nat → Read Node
  | 0 => throw .malformed
  | fuel + 1 => do
    match ← Read.peek with
    | .value | .flowEntry | .flowSequenceEnd => pure emptyNode
    | _ => node fuel false false

def flowPairs : Nat → Bool → Read (List (Node × Node))
  | 0, _ => throw .malformed
  | fuel + 1, first => do
    match ← Read.peek with
    | .flowMappingEnd => Read.advance; pure []
    | t =>
      if !first then
        match t with
        | .flowEntry => Read.advance
        | _ => Read.unexpected
      match ← Read.peek with
      | .key =>
        Read.advance
        let k ← flowMappingPart fuel
        let v ← match ← Read.peek with
          | .value => Read.advance; flowMappingPart fuel
          | _ => pure emptyNode
        pure ((k, v) :: (← flowPairs fuel false))
      | .flowMappingEnd => Read.advance; pure []
      | _ => do
        let k ← node fuel false false
        pure ((k, emptyNode) :: (← flowPairs fuel false))

/-- A key or a value of a flow mapping, which may be absent. -/
def flowMappingPart : Nat → Read Node
  | 0 => throw .malformed
  | fuel + 1 => do
    match ← Read.peek with
    | .value | .flowEntry | .flowMappingEnd => pure emptyNode
    | _ => node fuel false false

end

def defaultHandles : List (Text × Text) := [("!", "!"), ("!!", Tag.standardStart)]

/-- The directives before a document, each version and handle at most once. -/
def readDirectives : Nat → Bool → Read Unit
  | 0, _ => throw .malformed
  | fuel + 1, versioned => do
    match ← Read.peek with
    | .directive (.version major) =>
      if versioned ∨ major ≠ 1 then throw .malformed
      else do Read.advance; readDirectives fuel true
    | .directive (.handle handle start) =>
      if (← get).handles.any fun h => h.1 = handle then throw .malformed
      else do
        modify fun r => { r with handles := (handle, start) :: r.handles }
        Read.advance
        readDirectives fuel versioned
    | .directive .unknown => do Read.advance; readDirectives fuel versioned
    | _ => pure ()

def skipDocumentEnds : Nat → Read Unit
  | 0 => pure ()
  | fuel + 1 => do
    match ← Read.peek with
    | .documentEnd => do Read.advance; skipDocumentEnds fuel
    | _ => pure ()

/-- The one document of a text, if there is one. -/
def readDocument (fuel : Nat) : Read (Option Node) := do
  let first ← Read.peek
  let found ← match first with
    | .streamEnd => pure none
    | .directive _ | .documentStart => do
      readDirectives fuel false
      match ← Read.peek with
      | .documentStart => Read.advance
      | _ => Read.unexpected
      modify fun r => { r with handles := r.handles ++ defaultHandles }
      match ← Read.peek with
      | .directive _ | .documentStart | .documentEnd | .streamEnd => pure (some emptyNode)
      | _ => some <$> node fuel true false
    | _ => do
      modify fun r => { r with handles := defaultHandles }
      some <$> node fuel true false
  skipDocumentEnds fuel
  match ← Read.peek with
  | .streamEnd => pure found
  | _ => Read.unexpected

/-- The document that a text holds. -/
def Node.ofText? (t : Text) : Except Fault (Option Node) :=
  let ts := tokens t
  ((readDocument (4 * ts.length + 8)).run { tokens := ts }).map (·.1)

end ApiScaffold.Yaml
