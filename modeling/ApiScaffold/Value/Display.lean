import ApiScaffold.Value.Basic

/-!
# The text of a value

`display` is how a value stands in names, messages and files; a text displays as itself.
`shown` is how it stands inside a list or a mapping, where a text is quoted: in single
quotes, or in double quotes when it holds a single quote and no double one, with the
characters that cannot be seen written by number.
-/
namespace ApiScaffold

open Text

namespace Value

/-- The quote around a text in which the given test says whether a character occurs. -/
private def quoteMark (has : Char → Bool) : Char :=
  if has '\'' && !has '"' then '"' else '\''

private def shownChar (mark c : Char) : Text :=
  if c = mark ∨ c = '\\' then ['\\', c]
  else if c = '\n' then "\\n"
  else if c = '\r' then "\\r"
  else if c = '\t' then "\\t"
  else if isPrintable c then [c]
  else if c.toNat < 0x100 then "\\x" ++ hex 2 c.toNat
  else if c.toNat < 0x10000 then "\\u" ++ hex 4 c.toNat
  else "\\U" ++ hex 8 c.toNat

/-- A text in quotes. -/
def quoted (t : Text) : Text :=
  let mark := quoteMark (t.contains ·)
  mark :: t.flatMap (shownChar mark) ++ [mark]

private def quotedBytes (bs : List UInt8) : Text :=
  let t := bs.map fun b => Char.ofNat b.toNat
  let mark := quoteMark (t.contains ·)
  'b' :: mark :: t.flatMap (fun c =>
    if 127 < c.toNat then "\\x" ++ hex 2 c.toNat else shownChar mark c) ++ [mark]

/-- A list of items in brackets. -/
def bracketed (items : List Text) : Text := "[" ++ join ", " items ++ "]"

/-- The items of a tuple in parentheses, with a comma behind a single one. -/
def parenthesized (items : List Text) : Text :=
  match items with
  | [item] => "(" ++ item ++ ",)"
  | items => "(" ++ join ", " items ++ ")"

/-- The items of a set in braces. -/
def braced (items : List Text) : Text :=
  match items with
  | [] => "set()"
  | items => "\x7b" ++ join ", " items ++ "\x7d"

/-- A list of texts as it is shown. -/
def shownTexts (ts : List Text) : Text := bracketed (ts.map quoted)

private def shownDate (d : Date) : Text :=
  "datetime.date(" ++ ofNat d.year ++ ", " ++ ofNat d.month ++ ", " ++ ofNat d.day ++ ")"

/-- A span of time in microseconds. -/
def shownSpan (microseconds : Int) : Text :=
  let days := microseconds.fdiv 86400000000
  let rest := (microseconds - days * 86400000000).toNat
  let parts : List Text :=
    (if days = 0 then [] else ["days=" ++ ofInt days]) ++
    (if rest / 1000000 = 0 then [] else ["seconds=" ++ ofNat (rest / 1000000)]) ++
    (if rest % 1000000 = 0 then [] else ["microseconds=" ++ ofNat (rest % 1000000)])
  "datetime.timedelta(" ++ (if parts = [] then ("0" : Text) else join ", " parts) ++ ")"

private def shownMoment (m : Moment) : Text :=
  let fields := [m.date.year, m.date.month, m.date.day, m.hour, m.minute] ++
    (if m.microsecond ≠ 0 then [m.second, m.microsecond]
     else if m.second ≠ 0 then [m.second] else [])
  let zone : List Text := match m.offset with
    | none => []
    | some 0 => ["tzinfo=datetime.timezone.utc"]
    | some o => ["tzinfo=datetime.timezone(" ++ shownSpan o ++ ")"]
  "datetime.datetime(" ++ join ", " (fields.map ofNat ++ zone) ++ ")"

mutual

/-- The text of a value inside a collection. -/
def shown : Value → Text
  | .null => "None"
  | .bool b => if b then "True" else "False"
  | .int i => ofInt i
  | .float x => x.text
  | .text t => quoted t
  | .bytes bs => quotedBytes bs
  | .date d => shownDate d
  | .moment m => shownMoment m
  | .list items => bracketed (shownItems items)
  | .tuple items => parenthesized (shownItems items)
  | .set items => braced (shownItems items)
  | .mapping pairs => "\x7b" ++ join ", " (shownPairs pairs) ++ "\x7d"

def shownItems : List Value → List Text
  | [] => []
  | v :: rest => shown v :: shownItems rest

def shownPairs : List (Value × Value) → List Text
  | [] => []
  | (k, v) :: rest => (shown k ++ ": " ++ shown v) :: shownPairs rest

end

/-- The text of a value on its own. -/
def display : Value → Text
  | .text t => t
  | .date d => d.text
  | .moment m => m.text ' '
  | v => shown v

end Value

end ApiScaffold
