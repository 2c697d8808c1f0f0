import ApiScaffold.Misuse

/-!
# Reading and writing integers

An integer in base 2, 8, 10 or 16, with decimal digits of any script, blanks around it and a
sign and a base mark in front. A decimal integer of too many digits is refused for its length
as soon as its digits are counted, whatever follows them. A value that shows an integer of
more digits than that, in whatever depth, cannot be written either.
-/
namespace ApiScaffold

open Text

namespace Integer

def digitValue? (base : Nat) (c : Char) : Option Nat :=
  let value := match decimalValue? c with
    | some v => some v
    | none => if isAsciiLetter c then some ((lowerAscii c).toNat - 87) else none
  value.filter (· < base)

/-- The letter that marks a base after a zero. -/
def baseLetter (base : Nat) : Option Char :=
  if base = 2 then some 'b' else if base = 8 then some 'o' else if base = 16 then some 'x' else none

def dropMark (base : Nat) (t : Text) : Text :=
  match t with
  | '0' :: c :: rest => if baseLetter base = some (lowerAscii c) then rest else t
  | t => t

def valueOf (base : Nat) (digits : List Nat) : Nat := digits.foldl (fun n d => n * base + d) 0

/-- The digits that a text begins with. -/
def leadingDigits (base : Nat) : Text → List Nat
  | [] => []
  | c :: rest =>
    match digitValue? base c with
    | some d => d :: leadingDigits base rest
    | none => []

def ofText (base : Nat) (t : Text) : Except Misuse Int :=
  let body := trim t
  let (negative, unsigned) := match body with
    | '-' :: rest => (true, rest)
    | '+' :: rest => (false, rest)
    | rest => (false, rest)
  let unsigned := dropMark base unsigned
  let digits := leadingDigits base unsigned
  if base = 10 ∧ Misuse.digitLimit < digits.length then .error (.tooManyDigits digits.length)
  else if digits = [] ∨ digits.length < unsigned.length then .error (.notAnInteger base t)
  else
    let n := Int.ofNat (valueOf base digits)
    .ok (if negative then -n else n)

/-- Whether an integer has more digits than can be written. -/
def isLong (i : Int) : Bool := Misuse.digitLimit < (ofNat i.natAbs).length

end Integer

namespace Value

mutual

/-- Whether the text of a value has a long integer in it. -/
def hasLong : Value → Bool
  | .int i => Integer.isLong i
  | .list items => anyLong items
  | .tuple items => anyLong items
  | .set items => anyLong items
  | .mapping pairs => anyPairLong pairs
  | _ => false

def anyLong : List Value → Bool
  | [] => false
  | v :: rest => hasLong v || anyLong rest

def anyPairLong : List (Value × Value) → Bool
  | [] => false
  | (k, v) :: rest => hasLong k || hasLong v || anyPairLong rest

end

/-- The text of a value on its own, if it can be written. -/
def written (v : Value) : Except Misuse Text :=
  if v.hasLong then .error .tooLongToWrite else .ok v.display

end Value

end ApiScaffold
