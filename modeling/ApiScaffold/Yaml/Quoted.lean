import ApiScaffold.Yaml.Cursor

/-!
# Quoted scalars

In single quotes a quote is written twice. In double quotes a backslash begins an escape: a
letter for a control character, a number in hexadecimal, or a line break that does not count.
Other line breaks are folded in both.
-/
namespace ApiScaffold.Yaml

open Text

/-- The characters that a letter after a backslash stands for. -/
def escapes : List (Char × Char) :=
  [('0', '\x00'), ('a', '\x07'), ('b', '\x08'), ('t', '\t'), ('\t', '\t'), ('n', '\n'),
   ('v', '\x0b'), ('f', '\x0c'), ('r', '\r'), ('e', '\x1b'), (' ', ' '), ('"', '"'),
   ('\\', '\\'), ('/', '/'), ('N', '\u0085'), ('_', '\u00a0'), ('L', '\u2028'), ('P', '\u2029')]

def escape? (c : Char) : Option Char := (escapes.find? fun e => e.1 = c).map (·.2)

/-- The digits that a number after a backslash and this letter has. -/
def codeLength? (c : Char) : Option Nat :=
  if c = 'x' then some 2 else if c = 'u' then some 4 else if c = 'U' then some 8 else none

def isHexDigit (c : Char) : Bool :=
  isAsciiDigit c || ('a' ≤ c && c ≤ 'f') || ('A' ≤ c && c ≤ 'F')

def hexDigit (c : Char) : Nat := if isAsciiDigit c then c.toNat - 48 else (lowerAscii c).toNat - 87

def hexNumber (digits : Text) : Nat := digits.foldl (fun n d => n * 16 + hexDigit d) 0

/-- The character of a number, where the numbers reserved for pairs have none of their own. -/
def charOfCode (code : Nat) : Except Fault Char :=
  if 0x110000 ≤ code then .error (.misuse .codePointRange)
  else if 0xD800 ≤ code ∧ code < 0xE000 then .ok '\ufffd'
  else .ok (Char.ofNat code)

/-- Blank lines inside quotes. Documents cannot be separated there. -/
def quotedBreaks : Nat → Cursor → Except Fault (Text × Cursor)
  | 0, _ => .error .malformed
  | fuel + 1, s =>
    if s.isAtSeparator then .error .malformed
    else
      let s := s.skipWhile isSpaceOrTab
      match s.lineBreak? with
      | none => .ok ([], s)
      | some (c, s) => (quotedBreaks fuel s).map fun (more, s) => (c :: more, s)

/-- An escape, behind its backslash. -/
def escapeAt (s : Cursor) : Except Fault (Text × Cursor) :=
  let c := s.peek
  match escape? c, codeLength? c with
  | some d, _ => .ok ([d], s.next)
  | none, some n =>
    let s := s.next
    let digits := s.rest.take n
    if digits.length = n ∧ digits.all isHexDigit then
      (charOfCode (hexNumber digits)).map fun d => ([d], s.skip n)
    else .error .malformed
  | none, none =>
    match s.lineBreak? with
    | some (_, s) => quotedBreaks s.fuel s
    | none => .error .malformed

/-- A piece of a quoted scalar at a place where it has not ended. -/
def quotedPiece (double : Bool) (s : Cursor) : Except Fault (Text × Cursor) :=
  let c := s.peek
  if s.rest = [] then .error .malformed
  else if double ∧ c = '\\' then escapeAt s.next
  else if isBlankOrEnd c then
    let (blanks, s) := s.span isSpaceOrTab
    match s.lineBreak? with
    | none => if s.rest = [] then .error .malformed else .ok (blanks, s)
    | some (c, s) => (quotedBreaks s.fuel s).map fun (more, s) => (foldBreak c more, s)
  else .ok ([c], s.next)

def quotedFrom (double : Bool) : Nat → Cursor → Except Fault (Text × Cursor)
  | 0, _ => .error .malformed
  | fuel + 1, s =>
    let mark := if double then '"' else '\''
    if s.peek = mark then
      if !double ∧ s.peek 1 = mark then
        (quotedFrom double fuel (s.skip 2)).map fun (more, s) => (mark :: more, s)
      else .ok ([], s.next)
    else
      match quotedPiece double s with
      | .error f => .error f
      | .ok (piece, s) => (quotedFrom double fuel s).map fun (more, s) => (piece ++ more, s)

/-- A quoted scalar and the cursor behind its closing quote. -/
def quotedScalar (double : Bool) (s : Cursor) : Except Fault (Text × Cursor) :=
  quotedFrom double s.fuel s.next

end ApiScaffold.Yaml
