import ApiScaffold.Yaml.Cursor

/-!
# Block scalars

A block scalar is made of the lines that stand in at least as far as its first one, or as far
as its header says. A literal one keeps its line breaks; in a folded one a break between two
lines of text becomes a space. The header also says what becomes of the line breaks at the end.
-/
namespace ApiScaffold.Yaml

open Text

/-- What becomes of the line breaks at the end: all stay, none, or one. -/
inductive Chomping where
  | keep | strip | clip
  deriving DecidableEq, Repr

structure BlockHeader where
  chomping : Chomping := .clip
  /-- How much further in than its collection the text stands, when the header says so. -/
  increment : Option Nat := none
  deriving Repr

def chomping? (c : Char) : Option Chomping :=
  if c = '+' then some .keep else if c = '-' then some .strip else none

def increment? (c : Char) : Option Nat := if isAsciiDigit c then some (c.toNat - 48) else none

/-- The header behind its indicator: a sign and a digit in any order, both optional. -/
def blockHeader (s : Cursor) : Except Fault (BlockHeader × Cursor) :=
  let found : BlockHeader × Cursor :=
    match chomping? s.peek, increment? s.peek with
    | some c, _ =>
      let s := s.next
      match increment? s.peek with
      | some n => (⟨c, some n⟩, s.next)
      | none => (⟨c, none⟩, s)
    | none, some n =>
      let s := s.next
      match chomping? s.peek with
      | some c => (⟨c, some n⟩, s.next)
      | none => (⟨.clip, some n⟩, s)
    | none, none => (⟨.clip, none⟩, s)
  let (header, s) := found
  if header.increment = some 0 ∨ !isSpaceOrEnd s.peek then .error .malformed
  else
    let s := s.skipComment
    if isLineEnd s.peek then .ok (header, s.skipBreak) else .error .malformed

/-- The blank lines before the text, and the widest indentation met on the way. -/
def blockIndentation : Nat → Nat → Cursor → Text × Nat × Cursor
  | 0, widest, s => ([], widest, s)
  | fuel + 1, widest, s =>
    if s.peek = ' ' then
      let s := s.next
      blockIndentation fuel (max widest s.column) s
    else
      match s.lineBreak? with
      | none => ([], widest, s)
      | some (c, s) =>
        let (more, widest, s) := blockIndentation fuel widest s
        (c :: more, widest, s)

def skipIndent (indent : Nat) : Nat → Cursor → Cursor
  | 0, s => s
  | fuel + 1, s =>
    if s.column < indent ∧ s.peek = ' ' then skipIndent indent fuel s.next else s

/-- Blank lines, up to the given indentation of the next line. -/
def blockBreaks (indent : Nat) : Nat → Cursor → Text × Cursor
  | 0, s => ([], s)
  | fuel + 1, s =>
    let s := skipIndent indent s.fuel s
    match s.lineBreak? with
    | none => ([], s)
    | some (c, s) =>
      let (more, s) := blockBreaks indent fuel s
      (c :: more, s)

/-- The lines of a block scalar from a place where one begins: their text without the line
breaks at the end, the break of the last line, and the blank lines after it. -/
def blockLines (folded : Bool) (indent : Nat) : Nat → Cursor → Text × Text × Text × Cursor
  | 0, s => ([], [], [], s)
  | fuel + 1, s =>
    let startsBlank := isSpaceOrTab s.peek
    let (line, s) := s.span fun c => !isLineEnd c
    let (ending, s) : Text × Cursor := match s.lineBreak? with
      | some (c, s) => ([c], s)
      | none => ([], s)
    let (breaks, s) := blockBreaks indent s.fuel s
    if s.column = indent ∧ s.rest ≠ [] then
      let joint : Text :=
        if folded ∧ ending = ['\n'] ∧ !startsBlank ∧ !isSpaceOrTab s.peek then
          if breaks = [] then [' '] else []
        else ending
      let (more, ending, last, s) := blockLines folded indent fuel s
      (line ++ joint ++ breaks ++ more, ending, last, s)
    else (line, ending, breaks, s)

/-- A block scalar whose indicator stands at the cursor, inside a collection that stands in by
the given width. -/
def blockScalar (folded : Bool) (outer : Int) (s : Cursor) : Except Fault (Text × Cursor) :=
  match blockHeader s.next with
  | .error f => .error f
  | .ok (header, s) =>
    let least := (max (outer + 1) 1).toNat
    let (breaks, indent, s) : Text × Nat × Cursor :=
      match header.increment with
      | none =>
        let (breaks, widest, s) := blockIndentation s.fuel 0 s
        (breaks, max least widest, s)
      | some n =>
        let indent := least + n - 1
        let (breaks, s) := blockBreaks indent s.fuel s
        (breaks, indent, s)
    let (body, ending, last, s) : Text × Text × Text × Cursor :=
      if s.column = indent ∧ s.rest ≠ [] then
        let (body, ending, last, s) := blockLines folded indent s.fuel s
        (breaks ++ body, ending, last, s)
      else ([], [], breaks, s)
    let tail : Text := match header.chomping with
      | .keep => ending ++ last
      | .clip => ending
      | .strip => []
    .ok (body ++ tail, s)

end ApiScaffold.Yaml
