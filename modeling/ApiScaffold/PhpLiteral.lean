import ApiScaffold.Text.Basic

/-!
# PHP literals

Single-quoted strings and short array literals as they are written into generated files.
In a single-quoted string only the backslash and the quote are escaped, each by a
backslash in front of it.
-/
namespace ApiScaffold.PhpLiteral

open Text

def escape : Text → Text
  | [] => []
  | c :: rest => if c = '\\' ∨ c = '\'' then '\\' :: c :: escape rest else c :: escape rest

def quote (value : Text) : Text := '\'' :: escape value ++ ['\'']

/-- An array literal of expressions: nothing or one item stays on the line, more get a line
each at the depth of a method body. -/
def array (items : List Text) : Text :=
  match items with
  | [] => "[]"
  | [item] => '[' :: item ++ [']']
  | items =>
    let indent := spaces 12
    "[\n" ++ indent ++ join (",\n" ++ indent) items ++ ",\n" ++ spaces 8 ++ "]"

/-- An array literal of quoted strings. -/
def quotedArray (items : List Text) : Text := array (items.map quote)

end ApiScaffold.PhpLiteral
