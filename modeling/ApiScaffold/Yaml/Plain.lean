import ApiScaffold.Yaml.Cursor

/-!
# Plain scalars

A plain scalar goes on until an indicator that cannot be part of it. Single line breaks inside
are folded; on a later line it has to stand further in than the collection around it. The
reader also tells whether it ended beyond a line break, because then a key may follow.
-/
namespace ApiScaffold.Yaml

open Text

/-- Whether a plain scalar ends before a character with the given neighbour. -/
def endsPlain (flow : Bool) (c next : Char) : Bool :=
  isBlankOrEnd c ||
    (c == ':' && (isBlankOrEnd next || (flow && (",[]\x7b\x7d" : Text).contains next))) ||
    (flow && (",?[]\x7b\x7d" : Text).contains c)

def plainWord (flow : Bool) : Text → Text
  | [] => []
  | c :: rest =>
    if endsPlain flow c (rest.headD '\x00') then [] else c :: plainWord flow rest

/-- Blank lines after a line break: none when a separator of documents follows. -/
def plainBreaks : Nat → Cursor → Option Text × Cursor
  | 0, s => (some [], s)
  | fuel + 1, s =>
    if s.isAtSeparator then (none, s)
    else
      let s := s.skipWhile isSpace
      match s.lineBreak? with
      | none => (some [], s)
      | some (c, s) =>
        let (more, s) := plainBreaks fuel s
        (more.map (c :: ·), s)

/-- The blanks between two words of a plain scalar, as they count in its text, and whether
they hold a line break. -/
def plainBlanks (s : Cursor) : Text × Bool × Cursor :=
  let (spaces, s) := s.span isSpace
  match s.lineBreak? with
  | none => (spaces, false, s)
  | some (c, s) =>
    match plainBreaks s.fuel s with
    | (none, s) => ([], true, s)
    | (some more, s) => (foldBreak c more, true, s)

/-- The rest of a plain scalar after the given blanks. -/
def plainFrom (flow : Bool) (indent : Int) : Nat → Text → Bool → Cursor → Text × Bool × Cursor
  | 0, _, crossed, s => ([], crossed, s)
  | fuel + 1, blanks, crossed, s =>
    let word := if s.peek = '#' then [] else plainWord flow s.rest
    if word = [] then ([], crossed, s)
    else
      let (blanks', crossed, s) := plainBlanks (s.skip word.length)
      if blanks' = [] ∨ s.peek = '#' ∨ (!flow ∧ (s.column : Int) < indent) then
        (blanks ++ word, crossed, s)
      else
        let (more, crossed, s) := plainFrom flow indent fuel blanks' crossed s
        (blanks ++ word ++ more, crossed, s)

/-- A plain scalar, whether a line break was crossed behind its last word, and the cursor
behind it. -/
def plainScalar (flow : Bool) (indent : Int) (s : Cursor) : Text × Bool × Cursor :=
  plainFrom flow indent s.fuel [] false s

end ApiScaffold.Yaml
