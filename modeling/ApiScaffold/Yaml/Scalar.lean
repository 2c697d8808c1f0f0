import ApiScaffold.Identifier
import ApiScaffold.Value.Integer
import ApiScaffold.Yaml.Node

/-!
# Values of scalars

Which tag the text of a plain scalar suggests, and the value that a text has under a tag. A
tag that is written out may stand before any text, so reading the value can fail in ways that
a suggested tag never does. Underscores in numbers do not count, and numbers with colons have
base sixty.
-/
namespace ApiScaffold.Yaml

open Text

def isDigitOrUnderscore (c : Char) : Bool := isAsciiDigit c || c == '_'

def dropSign (t : Text) : Text :=
  match t with
  | c :: rest => if c = '+' ∨ c = '-' then rest else t
  | [] => t

/-- A digit and then digits and underscores. -/
def isDigitRun : Text → Bool
  | [] => false
  | c :: rest => isAsciiDigit c && rest.all isDigitOrUnderscore

/-- One or two digits below sixty. -/
def isSixtieth : Text → Bool
  | [c] => isAsciiDigit c
  | [c, d] => '0' ≤ c && c ≤ '5' && isAsciiDigit d
  | _ => false

/-- A run of digits and, after colons, at least one part below sixty. -/
def isSexagesimal (t : Text) : Bool :=
  match splitOn ':' t with
  | first :: p :: parts => isDigitRun first && (p :: parts).all isSixtieth
  | _ => false

def isExponent : Text → Bool
  | e :: sign :: digits =>
    (e == 'e' || e == 'E') && (sign == '+' || sign == '-') && !digits.isEmpty &&
      digits.all isAsciiDigit
  | _ => false

/-- Digits and underscores and then nothing or an exponent. -/
def isFractionTail (t : Text) : Bool :=
  let tail := t.dropWhile isDigitOrUnderscore
  tail.isEmpty || isExponent tail

def infinityWords : List Text := [".inf", ".Inf", ".INF"]

def nanWords : List Text := [".nan", ".NaN", ".NAN"]

def isFloatText (t : Text) : Bool :=
  let body := dropSign t
  let pointed : Bool := match cutAt '.' body with
    | (whole, some after) =>
      (isDigitRun whole && isFractionTail after) ||
        (isSexagesimal whole && after.all isDigitOrUnderscore)
    | (_, none) => false
  let bare : Bool := match t with
    | '.' :: c :: after => isAsciiDigit c && isFractionTail after
    | _ => false
  pointed || bare || infinityWords.contains body || nanWords.contains t

/-- A character in front of some of the given characters, after a fixed start. -/
def isMarked (mark : Text) (p : Char → Bool) (t : Text) : Bool :=
  beginsWith mark t && mark.length < t.length && (t.drop mark.length).all p

def isIntegerText (t : Text) : Bool :=
  let body := dropSign t
  let decimal : Bool := match body with
    | ['0'] => true
    | c :: _ => c != '0' && (isDigitRun body || isSexagesimal body)
    | [] => false
  decimal || isMarked "0b" (fun c => c == '0' || c == '1' || c == '_') body ||
    isMarked "0" (fun c => ('0' ≤ c && c ≤ '7') || c == '_') body ||
    isMarked "0x" (fun c => isHexDigit c || c == '_') body

def trueWords : List Text :=
  ["yes", "Yes", "YES", "true", "True", "TRUE", "on", "On", "ON"]

def falseWords : List Text :=
  ["no", "No", "NO", "false", "False", "FALSE", "off", "Off", "OFF"]

def nullWords : List Text := ["~", "null", "Null", "NULL"]

/-- The parts of a timestamp: the digits of a date and, unless it is a date alone, of a time. -/
structure Stamp where
  year : Nat
  month : Text
  day : Text
  time : Option (Nat × Nat × Nat) := none
  fraction : Text := []
  /-- The offset in minutes, where there is one. -/
  offset : Option Int := none
  deriving Repr

private def oneOrTwoDigits? (t : Text) : Option (Text × Text) :=
  match (t.takeWhile isAsciiDigit).take 2 with
  | [] => none
  | digits => some (digits, t.drop digits.length)

private def number (digits : Text) : Nat := digits.foldl (fun n d => n * 10 + (d.toNat - 48)) 0

private def zone? (t : Text) : Option Int :=
  match t with
  | ['Z'] => some 0
  | sign :: rest =>
    if sign = '+' ∨ sign = '-' then do
      let (hours, t) ← oneOrTwoDigits? rest
      let minutes ← match t with
        | [] => some 0
        | ':' :: t => do
          let (minutes, t) ← Moment.readDigits? 2 t
          if t = [] then some minutes else none
        | _ => none
      let n : Int := number hours * 60 + minutes
      some (if sign = '-' then -n else n)
    else none
  | [] => none

private def clock? (stamp : Stamp) (t : Text) : Option Stamp := do
  let (hour, t) ← oneOrTwoDigits? t
  let t ← Moment.readChar? ':' t
  let (minute, t) ← Moment.readDigits? 2 t
  let t ← Moment.readChar? ':' t
  let (second, t) ← Moment.readDigits? 2 t
  let (fraction, t) := match t with
    | '.' :: t => t.span isAsciiDigit
    | t => ([], t)
  let stamp := { stamp with time := some (number hour, minute, second), fraction }
  if t = [] then some stamp
  else do
    let offset ← zone? (t.dropWhile isSpaceOrTab)
    some { stamp with offset := some offset }

/-- Reads a timestamp. A date alone may have short parts here. -/
def stamp? (t : Text) : Option Stamp := do
  let (year, t) ← Moment.readDigits? 4 t
  let t ← Moment.readChar? '-' t
  let (month, t) ← oneOrTwoDigits? t
  let t ← Moment.readChar? '-' t
  let (day, t) ← oneOrTwoDigits? t
  let stamp : Stamp := { year, month, day }
  match t with
  | [] => some stamp
  | c :: rest =>
    if c = 'T' ∨ c = 't' then clock? stamp rest
    else if isSpaceOrTab c then clock? stamp (rest.dropWhile isSpaceOrTab)
    else none

def isTimestampText (t : Text) : Bool :=
  match stamp? t with
  | some s => s.time.isSome || (s.month.length == 2 && s.day.length == 2)
  | none => false

/-- The tag that a plain text suggests. -/
def suggestedTag (t : Text) : Tag :=
  let is (form : Text → Bool) : Bool := asLine form t
  if is fun t => trueWords.contains t || falseWords.contains t then .bool
  else if is isFloatText then .float
  else if is isIntegerText then .int
  else if is fun t => t == ("<<" : Text) then .merge
  else if t = [] ∨ is fun t => nullWords.contains t then .null
  else if is isTimestampText then .timestamp
  else if is fun t => t == ['='] then .value
  else .str

def boolValue (t : Text) : Except Misuse Value :=
  let word := lower t
  if (trueWords.map lower).contains word then .ok (.bool true)
  else if (falseWords.map lower).contains word then .ok (.bool false)
  else .error (.unknownWord word)

/-- The number that parts of base sixty make, the last one counting single. -/
def sexagesimal (parts : List Int) : Int := parts.foldl (fun n p => n * 60 + p) 0

/-- Splits off a sign. A number has at least one character. -/
def signed (t : Text) : Except Misuse (Bool × Text) :=
  match t with
  | [] => .error .noFirstCharacter
  | '-' :: rest => .ok (true, rest)
  | '+' :: rest => .ok (false, rest)
  | rest => .ok (false, rest)

def integerParts : List Text → Except Misuse (List Int)
  | [] => .ok []
  | part :: rest => do
    let i ← Integer.ofText 10 part
    let more ← integerParts rest
    .ok (i :: more)

def integerValue (t : Text) : Except Misuse Value := do
  let (negative, body) ← signed (t.filter (· ≠ '_'))
  let i ← match body with
    | ['0'] => .ok 0
    | [] => .error .noFirstCharacter
    | '0' :: 'b' :: digits => Integer.ofText 2 digits
    | '0' :: 'x' :: digits => Integer.ofText 16 digits
    | '0' :: _ => Integer.ofText 8 body
    | _ =>
      if body.contains ':' then (integerParts (splitOn ':' body)).map sexagesimal
      else Integer.ofText 10 body
  .ok (.int (if negative then -i else i))

def readFloat (t : Text) : Except Misuse Binary64 :=
  match Binary64.ofText? t with
  | some x => .ok x
  | none => .error (.notANumber t)

def floatParts : List Text → Except Misuse (List Binary64)
  | [] => .ok []
  | part :: rest => do
    let x ← readFloat part
    let more ← floatParts rest
    .ok (x :: more)

/-- The sum of the parts, the last one first, each rounded with its power of sixty. -/
def sexagesimalSum (parts : List Binary64) : Binary64 :=
  (parts.reverse.foldl (fun (acc : Binary64 × Nat) x =>
    (acc.1.add (x.mul (.ofNat acc.2)), acc.2 * 60)) (.zero false, 1)).1

def floatValue (t : Text) : Except Misuse Value := do
  let (negative, body) ← signed (lower (t.filter (· ≠ '_')))
  let withSign (x : Binary64) : Value := .float (if negative then x.negate else x)
  if body = (".inf" : Text) then .ok (withSign (.infinite false))
  else if body = (".nan" : Text) then .ok (.float .nan)
  else if body.contains ':' then (floatParts (splitOn ':' body)).map (withSign ∘ sexagesimalSum)
  else (readFloat body).map withSign

def base64Digit? (c : Char) : Option Nat :=
  if isAsciiUpper c then some (c.toNat - 65)
  else if isAsciiLower c then some (c.toNat - 71)
  else if isAsciiDigit c then some (c.toNat + 4)
  else if c = '+' then some 62
  else if c = '/' then some 63
  else none

/-- Bytes in base 64. Other characters do not count; the first filling that completes a group
ends the data. The state is the digits of the group so far and the filling after them. -/
def base64 : List Nat → Nat → Text → Except Fault Bytes
  | group, _, [] => if group = [] then .ok [] else .error .malformed
  | group, filling, c :: rest =>
    let bytesOf (ds : List Nat) : Nat := ds.foldl (fun n d => n * 64 + d) 0
    if c = '=' then
      match group with
      | [a, b] =>
        if 1 ≤ filling then .ok [UInt8.ofNat (bytesOf [a, b] / 16)]
        else base64 group (filling + 1) rest
      | [a, b, c] =>
        .ok [UInt8.ofNat (bytesOf [a, b, c] / 1024), UInt8.ofNat (bytesOf [a, b, c] / 4)]
      | _ => base64 group filling rest
    else
      match base64Digit? c with
      | none => base64 group filling rest
      | some d =>
        match group with
        | [x, y, z] =>
          let n := bytesOf [x, y, z, d]
          (base64 [] 0 rest).map fun more =>
            UInt8.ofNat (n / 65536) :: UInt8.ofNat (n / 256) :: UInt8.ofNat n :: more
        | group => base64 (group ++ [d]) 0 rest

def binaryValue (t : Text) : Except Fault Value :=
  if t.all fun c => c.toNat < 128 then (base64 [] 0 t).map .bytes else .error .malformed

/-- Less than a day, in minutes. -/
def isOffset (minutes : Int) : Bool := -1440 < minutes && minutes < 1440

def timestampValue (t : Text) : Except Misuse Value := do
  let t := if endsWith "\n" t then dropEnd 1 t else t
  let some s := stamp? t | .error .noTimestamp
  let date : Date := ⟨s.year, number s.month, number s.day⟩
  let checkDate : Except Misuse Unit := do
    if date.year < 1 then .error (.yearRange date.year)
    if date.month < 1 ∨ 12 < date.month then .error .monthRange
    if !date.valid then .error .dayRange
  match s.time with
  | none =>
    checkDate
    .ok (.date date)
  | some (hour, minute, second) =>
    let six := number ((s.fraction ++ List.replicate 6 '0').take 6)
    let offset : Option Int := s.offset.map (· * 60000000)
    if !(s.offset.all isOffset) then
      .error (.offsetRange (Value.shownSpan (offset.getD 0)))
    checkDate
    if 23 < hour then .error .hourRange
    if 59 < minute then .error .minuteRange
    if 59 < second then .error .secondRange
    .ok (.moment { date, hour, minute, second, microsecond := six, offset })

end ApiScaffold.Yaml
