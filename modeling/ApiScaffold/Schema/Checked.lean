import ApiScaffold.Schema.Issue
import ApiScaffold.Text.Utf8

/-!
# Checking values

A check turns a value into a part of a record or refuses it. Checks that stand side by side
are all made, and their issues are listed in the order of the checks; a misuse ends the
checking at once, whatever issues there are beside it. A record is read from a mapping: its
fields in their order first, then the keys that name no field, and only a record without any
issue is looked at as a whole.
-/
namespace ApiScaffold

open Text

inductive Refusal where
  | issues (found : List Issue)
  | misuse (m : Misuse)
  deriving Repr

abbrev Checked (α : Type) := Except Refusal α

namespace Checked

def refuse {α : Type} (fault : Fault) : Checked α := .error (.issues [⟨[], fault⟩])

/-- Moves the issues of a part below the step that leads to it. -/
def below {α : Type} (step : Step) : Checked α → Checked α
  | .error (.issues found) => .error (.issues (found.map (Issue.below step)))
  | other => other

/-- Two parts side by side. -/
def both {α β : Type} (first : Checked α) (second : Checked β) : Checked (α × β) :=
  match first, second with
  | .ok a, .ok b => .ok (a, b)
  | .error (.misuse m), _ => .error (.misuse m)
  | _, .error (.misuse m) => .error (.misuse m)
  | .error (.issues found), .error (.issues more) => .error (.issues (found ++ more))
  | .error e, .ok _ => .error e
  | .ok _, .error e => .error e

/-- Many parts side by side. -/
def all {α : Type} : List (Checked α) → Checked (List α)
  | [] => .ok []
  | part :: rest => (both part (all rest)).map fun p => p.1 :: p.2

end Checked

namespace Check

def text : Value → Checked Text
  | .text t => .ok t
  | .bytes bs =>
    match ofUtf8 bs with
    | .ok t => .ok t
    | .error _ => .refuse .undecodableText
  | _ => .refuse .notText

def nonEmptyText (v : Value) : Checked Text :=
  match text v with
  | .ok [] => .refuse .emptyText
  | other => other

def optionalText : Value → Checked (Option Text)
  | .null => .ok none
  | v => (text v).map some

def trueWords : List Text := ["1", "on", "t", "true", "y", "yes"]

def falseWords : List Text := ["0", "off", "f", "false", "n", "no"]

/-- The truth value that a word stands for, in any case of its letters. -/
def boolOfWord (word : Text) : Checked Bool :=
  let word := word.map lowerAscii
  if trueWords.contains word then .ok true
  else if falseWords.contains word then .ok false
  else .refuse .unclearBool

/-- The truth value of an integer. Only one of 64 bits is looked at. -/
def boolOfInteger (i : Int) : Checked Bool :=
  if i = 0 then .ok false
  else if i = 1 then .ok true
  else if isMachineInteger i then .refuse .unclearBool
  else .refuse .notBool

def bool : Value → Checked Bool
  | .bool b => .ok b
  | .text t => boolOfWord t
  | .bytes bs =>
    match ofUtf8 bs with
    | .ok t => boolOfWord t
    | .error _ => .refuse .unclearBool
  | .int i => boolOfInteger i
  | .float x =>
    match x.toInt? with
    | some i => boolOfInteger i
    | none => .refuse .notBool
  | _ => .refuse .notBool

def listFrom {α : Type} (item : Value → Checked α) : Nat → List Value → List (Checked α)
  | _, [] => []
  | i, v :: rest => (item v).below (.position i) :: listFrom item (i + 1) rest

def list {α : Type} (item : Value → Checked α) : Value → Checked (List α)
  | .list items | .tuple items | .set items => .all (listFrom item 0 items)
  | _ => .refuse .notList

/-- Puts in an entry: in the place of the one with its key when there is one, else at the end. -/
def putEntry {α : Type} (found : List (Text × α)) (entry : Text × α) : List (Text × α) :=
  if found.any fun e => e.1 = entry.1 then
    found.map fun e => if e.1 = entry.1 then entry else e
  else found ++ [entry]

/-- The entries of a mapping with text for keys. Keys that are read to the same text count as one,
in the place of the first and with the value of the last. -/
def entries {α : Type} (item : Value → Checked α) : Value → Checked (List (Text × α))
  | .mapping pairs =>
    let parts := pairs.map fun p =>
      Checked.both ((text p.1).below .key |>.below (.ofKey p.1)) ((item p.2).below (.ofKey p.1))
    (Checked.all parts).map fun found => found.foldl putEntry []
  | _ => .refuse .notMapping

/-- A field of a record: its value when it is given, else its default when it has one. -/
def field {α : Type} (name : Text) (default? : Option α) (check : Value → Checked α)
    (data : Mapping) : Checked α :=
  Checked.below (.name name) <|
    match data.getText? name, default? with
    | some v, _ => check v
    | none, some v => .ok v
    | none, none => .refuse .missing

/-- The keys that name no field of a record. -/
def strangers (fields : List Text) (data : Mapping) : Checked Unit :=
  let found := data.filterMap fun p =>
    match p.1 with
    | .text t => if fields.contains t then none else some ⟨[.name t], .unknownField⟩
    | key => some ⟨[.ofKey key], .keyNotText⟩
  if found.isEmpty then .ok () else .error (.issues found)

/-- A record with the given names for its fields, read by the given function. -/
def record {α : Type} (kind : RecordKind) (fields : List Text) (read : Mapping → Checked α) :
    Value → Checked α
  | .mapping data => (Checked.both (read data) (strangers fields data)).map (·.1)
  | _ => .refuse (.notRecord kind)

end Check

end ApiScaffold
