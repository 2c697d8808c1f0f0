import ApiScaffold.Text.Classes

/-!
# Plural and singular

English number by a table of irregular nouns and a short list of endings. Both functions
look at the lower case of the whole name, separators included, and cut or extend the name
as it is written; a name that already looks right is returned unchanged.
-/
namespace ApiScaffold.Inflection

open Text

def irregularNouns : List (Text × Text) :=
  [("person", "people"), ("child", "children"), ("man", "men"), ("woman", "women"),
   ("mouse", "mice"), ("datum", "data"), ("index", "indices"), ("matrix", "matrices"),
   ("axis", "axes"), ("crisis", "crises"), ("analysis", "analyses"), ("status", "statuses"),
   ("address", "addresses"), ("media", "media")]

def irregularPlural? (word : Text) : Option Text :=
  (irregularNouns.find? fun pair => pair.1 = word).map (·.2)

def irregularSingular? (word : Text) : Option Text :=
  (irregularNouns.find? fun pair => pair.2 = word).map (·.1)

/-- Capitalises a word of the table when the name that it replaces begins with a capital. -/
def matchCase (source word : Text) : Text :=
  match source, word with
  | c :: _, w :: rest => if isAsciiUpper c then upperAscii w :: rest else word
  | _, _ => word

/-- Whether the last letter but one is anything but a vowel. -/
def consonantBeforeLast (word : Text) : Bool :=
  match word.reverse with
  | _ :: c :: _ => !("aeiou" : Text).contains c
  | _ => false

/-- The plural by ending, of a name with the given lower case. -/
def regularPlural (name word : Text) : Text :=
  if endsWith "s" word && !endsWith "ss" word then name
  else if endsWithAny ["sh", "ch", "x", "z", "ss"] word then name ++ "es"
  else if endsWith "y" word && 1 < name.length && consonantBeforeLast word then
    dropEnd 1 name ++ "ies"
  else if endsWith "fe" word then dropEnd 2 name ++ "ves"
  else if endsWith "f" word && !endsWith "ff" word then dropEnd 1 name ++ "ves"
  else name ++ "s"

def plural (name : Text) : Text :=
  if name = [] then []
  else
    let word := lower name
    match irregularPlural? word with
    | some many => matchCase name many
    | none => if (irregularSingular? word).isSome then name else regularPlural name word

/-- The singular by ending, of a name with the given lower case. -/
def regularSingular (name word : Text) : Text :=
  if endsWith "ies" word && 3 < name.length then dropEnd 3 name ++ "y"
  else if endsWith "ves" word && 3 < name.length then dropEnd 3 name ++ "f"
  else if endsWithAny ["sses", "shes", "ches", "xes", "zes"] word then dropEnd 2 name
  else if endsWith "s" word && !endsWithAny ["ss", "us", "is"] word then dropEnd 1 name
  else name

def singular (name : Text) : Text :=
  if name = [] then []
  else
    let word := lower name
    match irregularSingular? word with
    | some one => matchCase name one
    | none => if (irregularPlural? word).isSome then name else regularSingular name word

end ApiScaffold.Inflection
