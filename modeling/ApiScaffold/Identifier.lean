import ApiScaffold.Text.Classes

/-!
# Forms of names

Identifiers, capitalised names and snake case, all over the letters and digits of ASCII. A
name that is read as a line may also end in one line feed.
-/
namespace ApiScaffold

open Text

def isIdentifierStart (c : Char) : Bool := isAsciiLetter c || c == '_'

def isIdentifierChar (c : Char) : Bool := isAsciiAlnum c || c == '_'

def isIdentifier : Text → Bool
  | [] => false
  | c :: rest => isIdentifierStart c && rest.all isIdentifierChar

/-- A capital and then letters and digits. -/
def isStudly : Text → Bool
  | [] => false
  | c :: rest => isAsciiUpper c && rest.all isAsciiAlnum

/-- Words of small letters and digits with single underscores between them, a letter first. -/
def isSnake (t : Text) : Bool :=
  t.head?.any isAsciiLower &&
    (splitOn '_' t).all fun word =>
      word ≠ [] && word.all fun c => isAsciiLower c || isAsciiDigit c

/-- Identifiers with a backslash between them. -/
def isNamespace (t : Text) : Bool := (splitOn '\\' t).all isIdentifier

/-- A column, or an entity and one of its columns with a dot between them. -/
def isColumnKey (t : Text) : Bool :=
  match cutAt '.' t with
  | (name, none) => isIdentifier name
  | (entity, some name) => isStudly entity && isIdentifier name

/-- Whether a name has the form, a line feed at its end aside. -/
def asLine (form : Text → Bool) (t : Text) : Bool :=
  form t || (endsWith "\n" t && form (dropEnd 1 t))

end ApiScaffold
