import ApiScaffold.Text.Utf8
import ApiScaffold.Yaml.Quoted

/-!
# Tags

A tag is a handle, which stands for the beginning of a name, and the rest of the name; it may
also be written out between angle brackets. In the names, characters can be written as bytes
in hexadecimal.
-/
namespace ApiScaffold.Yaml

open Text

structure WrittenTag where
  handle : Option Text
  rest : Text
  deriving DecidableEq, Repr

def isWordOrHyphen (c : Char) : Bool := isAsciiAlnum c || c == '-' || c == '_'

def isUriChar (c : Char) : Bool :=
  isAsciiAlnum c || ("-;/?:@&=+$,_.!~*'()[]" : Text).contains c

/-- The bytes of a run of escapes. -/
def uriBytes : Nat → Cursor → Except Fault (Bytes × Cursor)
  | 0, _ => .error .malformed
  | fuel + 1, s =>
    if s.peek = '%' then
      let s := s.next
      let digits := s.rest.take 2
      if digits.length = 2 ∧ digits.all isHexDigit then
        (uriBytes fuel (s.skip 2)).map fun (more, s) => (UInt8.ofNat (hexNumber digits) :: more, s)
      else .error .malformed
    else .ok ([], s)

def uriFrom : Nat → Cursor → Except Fault (Text × Cursor)
  | 0, _ => .error .malformed
  | fuel + 1, s =>
    if s.peek = '%' then
      match uriBytes s.fuel s with
      | .error f => .error f
      | .ok (bytes, s) =>
        match ofUtf8 bytes with
        | .error _ => .error .malformed
        | .ok t => (uriFrom fuel s).map fun (more, s) => (t ++ more, s)
    else if isUriChar s.peek then
      let c := s.peek
      (uriFrom fuel s.next).map fun (more, s) => (c :: more, s)
    else .ok ([], s)

/-- A name of at least one character. -/
def uri (s : Cursor) : Except Fault (Text × Cursor) :=
  match uriFrom s.fuel s with
  | .ok ([], _) => .error .malformed
  | other => other

/-- A handle: one exclamation mark, or a word between two of them. -/
def tagHandle (s : Cursor) : Except Fault (Text × Cursor) :=
  if s.peek ≠ '!' then .error .malformed
  else if s.peek 1 = ' ' then .ok (['!'], s.next)
  else
    let (word, s) := s.next.span isWordOrHyphen
    if s.peek = '!' then .ok ('!' :: word ++ ['!'], s.next) else .error .malformed

/-- A tag and the cursor behind it, where a blank has to stand. -/
def writtenTag (s : Cursor) : Except Fault (WrittenTag × Cursor) :=
  let found : Except Fault (WrittenTag × Cursor) :=
    if s.peek 1 = '<' then
      (uri (s.skip 2)).bind fun (name, s) =>
        if s.peek = '>' then .ok (⟨none, name⟩, s.next) else .error .malformed
    else if isBlankOrEnd (s.peek 1) then .ok (⟨none, ['!']⟩, s.next)
    else if (s.next.rest.takeWhile fun c => !isSpaceOrEnd c).contains '!' then
      (tagHandle s).bind fun (handle, s) => (uri s).map fun (name, s) => (⟨some handle, name⟩, s)
    else (uri s.next).map fun (name, s) => (⟨some ['!'], name⟩, s)
  found.bind fun (tag, s) => if isSpaceOrEnd s.peek then .ok (tag, s) else .error .malformed

/-- A line that tells about the document: its version, the meaning of a handle, or something
that is not known here. -/
inductive Directive where
  | version (major : Nat)
  | handle (handle start : Text)
  | unknown
  deriving DecidableEq, Repr

private def decimals (s : Cursor) : Except Fault (Nat × Cursor) :=
  match s.span isAsciiDigit with
  | ([], _) => .error .malformed
  | (digits, s) => .ok (digits.foldl (fun n d => n * 10 + (d.toNat - 48)) 0, s)

private def versionNumber (s : Cursor) : Except Fault (Directive × Cursor) :=
  (decimals (s.skipWhile isSpace)).bind fun (major, s) =>
    if s.peek ≠ '.' then .error .malformed
    else (decimals s.next).bind fun (_, s) =>
      if isSpaceOrEnd s.peek then .ok (.version major, s) else .error .malformed

private def handleMeaning (s : Cursor) : Except Fault (Directive × Cursor) :=
  (tagHandle (s.skipWhile isSpace)).bind fun (handle, s) =>
    if s.peek ≠ ' ' then .error .malformed
    else (uri (s.skipWhile isSpace)).bind fun (start, s) =>
      if isSpaceOrEnd s.peek then .ok (.handle handle start, s) else .error .malformed

/-- A directive behind its percent sign, with its whole line. -/
def directive (s : Cursor) : Except Fault (Directive × Cursor) :=
  let (name, s) := s.span isWordOrHyphen
  if name = [] ∨ !isSpaceOrEnd s.peek then .error .malformed
  else
    let found : Except Fault (Directive × Cursor) :=
      if name = ("YAML" : Text) then versionNumber s
      else if name = ("TAG" : Text) then handleMeaning s
      else .ok (.unknown, s.skipWhile fun c => !isLineEnd c)
    found.bind fun (d, s) =>
      let s := s.skipComment
      if isLineEnd s.peek then .ok (d, s.skipBreak) else .error .malformed

end ApiScaffold.Yaml
