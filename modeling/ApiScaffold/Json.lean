import ApiScaffold.Text.Basic

/-!
# JSON text

Values of JSON and their text: on one line, or with a line for every part of a list or an
object and the given indentation for each level. Only quotes, backslashes and control
characters are escaped. Empty lists and objects stay on their line.
-/
namespace ApiScaffold

open Text

inductive Json where
  | null
  | bool (b : Bool)
  | int (i : Int)
  | text (t : Text)
  | list (items : List Json)
  | object (fields : List (Text × Json))
  deriving Repr

namespace Json

def escapeChar (c : Char) : Text :=
  if c = '"' then "\\\""
  else if c = '\\' then "\\\\"
  else if c = '\n' then "\\n"
  else if c = '\r' then "\\r"
  else if c = '\t' then "\\t"
  else if c = '\x08' then "\\b"
  else if c = '\x0c' then "\\f"
  else if c.toNat < 32 then "\\u" ++ hex 4 c.toNat
  else [c]

def quote (t : Text) : Text := '"' :: t.flatMap escapeChar ++ ['"']

/-- Brackets around parts, each part on a line of its own when there is an indentation. -/
def enclose (indent : Option Nat) (depth : Nat) (start stop : Char) (parts : List Text) : Text :=
  if parts = [] then [start, stop]
  else match indent with
    | none => start :: join ", " parts ++ [stop]
    | some n =>
      let line (depth : Nat) : Text := '\n' :: spaces (n * depth)
      start :: line (depth + 1) ++ join (',' :: line (depth + 1)) parts ++ line depth ++ [stop]

mutual

/-- The text of a value at a depth of brackets. -/
def textAt (indent : Option Nat) (depth : Nat) : Json → Text
  | .null => "null"
  | .bool b => if b then "true" else "false"
  | .int i => ofInt i
  | .text t => quote t
  | .list items => enclose indent depth '[' ']' (itemTexts indent (depth + 1) items)
  | .object fields => enclose indent depth '\x7b' '\x7d' (fieldTexts indent (depth + 1) fields)

def itemTexts (indent : Option Nat) (depth : Nat) : List Json → List Text
  | [] => []
  | item :: rest => textAt indent depth item :: itemTexts indent depth rest

def fieldTexts (indent : Option Nat) (depth : Nat) : List (Text × Json) → List Text
  | [] => []
  | (name, value) :: rest =>
    (quote name ++ ": " ++ textAt indent depth value) :: fieldTexts indent depth rest

end

def render (indent : Option Nat) (j : Json) : Text := textAt indent 0 j

end Json

end ApiScaffold
