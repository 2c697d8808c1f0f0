import ApiScaffold.Text.Classes

/-!
# Filling in stubs

A token is a name of word characters between double braces, with optional blanks around it.
A template is cut once into tokens and the characters between them, from the left; filling it
in replaces every token whose name has a value and leaves the others as they are. Values are
put in as they are and never cut again.
-/
namespace ApiScaffold.Stub

open Text

inductive Piece where
  | char (c : Char)
  /-- A token with its name and its own text. -/
  | token (name raw : Text)
  deriving DecidableEq, Repr

/-- The name and the length of the token that a text begins with. -/
def tokenAt? (t : Text) : Option (Text × Nat) :=
  match t with
  | '\x7b' :: '\x7b' :: rest =>
    let afterBlanks := rest.dropWhile isBlank
    let name := afterBlanks.takeWhile isWordChar
    let afterName := afterBlanks.drop name.length
    match name, afterName.dropWhile isBlank with
    | _ :: _, '\x7d' :: '\x7d' :: after => some (name, t.length - after.length)
    | _, _ => none
  | _ => none

/-- The tokens of a template and the characters between them. -/
def pieces : Text → List Piece
  | [] => []
  | c :: rest =>
    match tokenAt? (c :: rest) with
    | some (name, n) => .token name ((c :: rest).take n) :: pieces (rest.drop (n - 1))
    | none => .char c :: pieces rest
  termination_by t => t.length
  decreasing_by all_goals simp only [List.length_drop, List.length_cons]; omega

/-- Values by token name; of two for one name the later one counts. -/
abbrev Slots := List (Text × Text)

def Slots.value? (slots : Slots) (name : Text) : Option Text :=
  (slots.reverse.find? fun slot => slot.1 = name).map (·.2)

def Piece.fill (slots : Slots) : Piece → Text
  | .char c => [c]
  | .token name raw => (slots.value? name).getD raw

/-- A template with its tokens filled in. -/
def render (template : Text) (slots : Slots) : Text :=
  (pieces template).flatMap (Piece.fill slots)

end ApiScaffold.Stub
