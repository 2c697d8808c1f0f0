import ApiScaffold.Misuse

/-!
# Reading YAML text

A cursor is the text still to be read and the place where it begins: how many characters and
lines are behind it, and how many characters of its line. Past the end every look ahead meets
the null character, which no document holds.
-/
namespace ApiScaffold.Yaml

open Text

/-- Why a text is no document: it is not well formed, or a scalar cannot be what it is marked as. -/
inductive Fault where
  | malformed
  | misuse (m : Misuse)
  deriving DecidableEq, Repr

def isBreak (c : Char) : Bool :=
  c == '\n' || c == '\r' || c.toNat == 0x85 || c.toNat == 0x2028 || c.toNat == 0x2029

def isSpace (c : Char) : Bool := c == ' '

def isSpaceOrTab (c : Char) : Bool := c == ' ' || c == '\t'

/-- The end of a line or of the text. -/
def isLineEnd (c : Char) : Bool := c == '\x00' || isBreak c

def isSpaceOrEnd (c : Char) : Bool := c == ' ' || isLineEnd c

/-- What sets an indicator apart from the text after it. -/
def isBlankOrEnd (c : Char) : Bool := isSpaceOrTab c || isLineEnd c

structure Cursor where
  rest : Text
  index : Nat := 0
  line : Nat := 0
  column : Nat := 0
  deriving Repr

namespace Cursor

def peek (s : Cursor) (n : Nat := 0) : Char := s.rest.getD n '\x00'

/-- Steps over one character. A byte order mark takes no room on its line. -/
def next (s : Cursor) : Cursor :=
  match s.rest with
  | [] => s
  | c :: rest =>
    if isBreak c && !(c == '\r' && rest.head? == some '\n') then
      { rest, index := s.index + 1, line := s.line + 1 }
    else if c.toNat = 0xFEFF then { s with rest, index := s.index + 1 }
    else { s with rest, index := s.index + 1, column := s.column + 1 }

def skip : Nat → Cursor → Cursor
  | 0, s => s
  | n + 1, s => skip n s.next

/-- The characters up to the first one without a property, and the cursor there. -/
def span (p : Char → Bool) (s : Cursor) : Text × Cursor :=
  let found := s.rest.takeWhile p
  (found, s.skip found.length)

def skipWhile (p : Char → Bool) (s : Cursor) : Cursor := (s.span p).2

/-- Steps over a line break, which counts as a line feed unless it is a separator of its own. -/
def lineBreak? (s : Cursor) : Option (Char × Cursor) :=
  match s.rest with
  | '\r' :: '\n' :: _ => some ('\n', s.skip 2)
  | c :: _ =>
    if c.toNat = 0x2028 ∨ c.toNat = 0x2029 then some (c, s.next)
    else if isBreak c then some ('\n', s.next)
    else none
  | [] => none

def skipBreak (s : Cursor) : Cursor :=
  match s.lineBreak? with
  | some (_, s) => s
  | none => s

/-- Steps over spaces and a comment after them. -/
def skipComment (s : Cursor) : Cursor :=
  let s := s.skipWhile isSpace
  if s.peek = '#' then s.skipWhile fun c => !isLineEnd c else s

/-- Whether a mark of three characters between documents stands here. -/
def isAtMark (mark : Text) (s : Cursor) : Bool :=
  s.rest.take 3 == mark && isBlankOrEnd (s.peek 3)

/-- Whether the line that begins here separates documents. -/
def isAtSeparator (s : Cursor) : Bool := s.isAtMark "---" || s.isAtMark "..."

end Cursor

/-- One more than the characters still to be read: enough steps for any loop that reads one
character in each. -/
def Cursor.fuel (s : Cursor) : Nat := s.rest.length + 1

/-- A line break folded into the text around it: a single one becomes a space. -/
def foldBreak (first : Char) (more : Text) : Text :=
  if first ≠ '\n' then first :: more else if more = [] then [' '] else more

end ApiScaffold.Yaml
