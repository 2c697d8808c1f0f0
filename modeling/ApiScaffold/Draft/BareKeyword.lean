import ApiScaffold.Text.Classes

/-!
# Bare keywords

A draft may have a keyword alone on an indented line, which is no YAML. Such a line is turned
into a mapping of the keyword to itself, or of a resource to its usual actions; everything else
stays as it is. The two kinds of lines are replaced one after the other, each in a pass over the
whole document. Keywords are recognised in any case of their letters, where the letters i and s
have more forms than two.
-/
namespace ApiScaffold.Draft

open Text

/-- The form of a character in which keywords are compared. -/
def foldCase (c : Char) : Char :=
  if c.toNat = 0x130 ∨ c.toNat = 0x131 then 'i'
  else if c.toNat = 0x17F then 's'
  else lowerAscii c

def bareKeywords : List Text :=
  ["id", "timestamps", "timestampstz", "softdeletes", "softdeletestz"]

def isIndent (c : Char) : Bool := c == ' ' || c == '\t'

def isWordPart (c : Char) : Bool := !isIndent c && c != '\n'

/-- A line with one word between blanks. -/
structure BareLine where
  indent : Text
  word : Text
  trail : Text

namespace BareLine

def text (line : BareLine) : Text := line.indent ++ line.word ++ line.trail

/-- The keyword as a mapping to itself. -/
def mapping (line : BareLine) : Text := line.indent ++ line.word ++ ": " ++ line.word

def web (line : BareLine) : Text := line.indent ++ "resource: web"

end BareLine

/-- The line that a text begins with, if it is indented and has nothing on it but one of the
keywords. -/
def bareLine? (keywords : List Text) (t : Text) : Option BareLine :=
  let indent := t.takeWhile isIndent
  let unindented := t.drop indent.length
  let word := unindented.takeWhile isWordPart
  let behind := unindented.drop word.length
  let trail := behind.takeWhile isIndent
  if indent ≠ [] ∧ keywords.contains (word.map foldCase) ∧
      (behind.drop trail.length).head?.all (· == '\n') then
    some { indent, word, trail }
  else none

/-- Puts another text in the place of every bare line, from the left to the right. A line begins
at the start of the text and behind every line feed; `skip` characters of a line that was replaced
are still to be passed over. -/
def replaceBare (keywords : List Text) (new : BareLine → Text) (skip : Nat) (begins : Bool) :
    Text → Text
  | [] => []
  | c :: cs =>
    match skip with
    | skip + 1 => replaceBare keywords new skip false cs
    | 0 =>
      match if begins then bareLine? keywords (c :: cs) else none with
      | some line => new line ++ replaceBare keywords new (line.text.length - 1) false cs
      | none => c :: replaceBare keywords new 0 (c == '\n') cs

/-- A document with its bare keywords written out, and its bare resources after them. -/
def expandBareKeywords (t : Text) : Text :=
  replaceBare ["resource"] BareLine.web 0 true
    (replaceBare bareKeywords BareLine.mapping 0 true t)

end ApiScaffold.Draft
