import ApiScaffold.Text.Classes

/-!
# Binary floating-point numbers

Numbers of 53 significant bits, by sign, mantissa and exponent. Every operation is exact on
fractions of naturals and rounds once, to the nearest number and to an even mantissa from
half-way. `text` writes the fewest digits that read back: without an exponent from 1e-4 up to
1e16, with one elsewhere.
-/
namespace ApiScaffold

open Text

/-- A finite number is the mantissa times two to the exponent; the mantissa is below 2^53 and
the exponent as small as possible, but at least -1074. -/
inductive Binary64 where
  | nan
  | infinite (negative : Bool)
  | finite (negative : Bool) (mantissa : Nat) (exponent : Int)
  deriving DecidableEq, Repr

namespace Binary64

def zero (negative : Bool) : Binary64 := .finite negative 0 (-1074)

/-- The power of two with a natural exponent; a negative exponent counts as zero. -/
def twoTo (exponent : Int) : Nat := Nat.pow 2 exponent.toNat

/-- As `twoTo`, for ten. -/
def tenTo (exponent : Int) : Nat := Nat.pow 10 exponent.toNat

/-- The numerator and denominator of a mantissa and an exponent. -/
def fraction (mantissa : Nat) (exponent : Int) : Nat × Nat :=
  (mantissa * twoTo exponent, twoTo (-exponent))

/-- The quotient rounded to the nearest natural, half-way to the even one. -/
def roundHalfEven (num den : Nat) : Nat :=
  let q := num / den
  let r := num % den
  if 2 * r < den then q
  else if den < 2 * r then q + 1
  else if q % 2 = 0 then q else q + 1

/-- The number nearest to a fraction with a positive denominator. -/
def ofFraction (negative : Bool) (num den : Nat) : Binary64 :=
  if num = 0 then zero negative
  else
    let k : Int := (num.log2 : Int) - den.log2
    let below := num * twoTo (-k) < den * twoTo k
    let magnitude := if below then k - 1 else k
    let exponent := max (magnitude - 52) (-1074)
    let mantissa := roundHalfEven (num * twoTo (-exponent)) (den * twoTo exponent)
    let (mantissa, exponent) :=
      if mantissa = twoTo 53 then (twoTo 52, exponent + 1) else (mantissa, exponent)
    if 971 < exponent then .infinite negative else .finite negative mantissa exponent

/-- The number nearest to a decimal: a natural of `digits` digits times a power of ten. -/
def ofDecimal (negative : Bool) (digits : Nat) (power : Int) : Binary64 :=
  let size : Int := (ofNat digits).length + power
  if digits = 0 then zero negative
  else if 400 < size then .infinite negative
  else if size < -400 then zero negative
  else ofFraction negative (digits * tenTo power) (tenTo (-power))

def ofNat (n : Nat) : Binary64 := ofFraction false n 1

def isZero : Binary64 → Bool
  | .finite _ 0 _ => true
  | _ => false

def negate : Binary64 → Binary64
  | .nan => .nan
  | .infinite negative => .infinite !negative
  | .finite negative m e => .finite (!negative) m e

def isNegative : Binary64 → Bool
  | .nan => false
  | .infinite negative => negative
  | .finite negative _ _ => negative

/-- The integer that the number is, if it is one. -/
def toInt? : Binary64 → Option Int
  | .finite negative m e =>
    let (num, den) := fraction m e
    if num % den = 0 then
      some (if negative then -((num / den : Nat) : Int) else ((num / den : Nat) : Int))
    else none
  | _ => none

def mul : Binary64 → Binary64 → Binary64
  | .finite s m e, .finite t n f =>
    let (num, den) := fraction (m * n) (e + f)
    ofFraction (s != t) num den
  | .nan, _ => .nan
  | _, .nan => .nan
  | a, b => if a.isZero || b.isZero then .nan else .infinite (a.isNegative != b.isNegative)

def add : Binary64 → Binary64 → Binary64
  | .finite s m e, .finite t n f =>
    let low := min e f
    let a : Int := (m * twoTo (e - low) : Nat)
    let b : Int := (n * twoTo (f - low) : Nat)
    let sum := (if s then -a else a) + (if t then -b else b)
    if sum = 0 then zero (s && t)
    else
      let (num, den) := fraction sum.natAbs low
      ofFraction (sum < 0) num den
  | .nan, _ => .nan
  | _, .nan => .nan
  | .infinite s, .infinite t => if s = t then .infinite s else .nan
  | .infinite s, _ => .infinite s
  | _, .infinite t => .infinite t

/-! ## Text -/

/-- The powers of ten below which a number with the given fraction lies: the least `k` with
num / den < 10^k, found from an estimate near it. -/
private def decimalSize (num den : Nat) : Nat → Int → Int
  | 0, k => k
  | fuel + 1, k =>
    if num * tenTo (-k) < den * tenTo k then
      if num * tenTo (1 - k) < den * tenTo (k - 1) then decimalSize num den fuel (k - 1)
      else k
    else decimalSize num den fuel (k + 1)

/-- The two neighbours of a fraction among the naturals, the nearer one first; half-way, the
even one. -/
private def neighbours (num den : Nat) : List Nat :=
  let low := num / den
  if roundHalfEven num den = low then [low, low + 1] else [low + 1, low]

/-- The first decimal that reads back, tried with a growing count of digits. Near a power of two
the neighbour farther away can be the one that does. -/
private def shortestFrom (num den mantissa : Nat) (exponent size : Int) :
    Nat → Nat → Nat × Int
  | 0, count => (roundHalfEven num den, (count : Int))
  | fuel + 1, count =>
    let power := size - (count : Int)
    let candidates := neighbours (num * tenTo (-power)) (den * tenTo power)
    match candidates.find? fun n => ofDecimal false n power = .finite false mantissa exponent with
    | some n => (n, power)
    | none => shortestFrom num den mantissa exponent size fuel (count + 1)

/-- The fewest digits that read back, and the place of the decimal point before them. -/
private def shortest (mantissa : Nat) (exponent : Int) : Text × Int :=
  let (num, den) := fraction mantissa exponent
  let estimate : Int := ((num.log2 : Int) - den.log2) * 30103 / 100000
  let size := decimalSize num den 8 estimate
  let (n, power) := shortestFrom num den mantissa exponent size 17 1
  let digits := Text.ofNat n
  (stripRight (· == '0') digits, (digits.length : Int) + power)

/-- How a number is written: the fewest digits that read back, a point always, and an exponent
of at least two digits outside 1e-4 to 1e16. -/
def text : Binary64 → Text
  | .nan => "nan"
  | .infinite negative => if negative then "-inf" else "inf"
  | .finite negative m e =>
    let sign : Text := if negative then "-" else []
    if m = 0 then sign ++ "0.0"
    else
      let (digits, point) := shortest m e
      let count : Int := digits.length
      if -4 < point ∧ point ≤ 16 then
        if point ≤ 0 then sign ++ "0." ++ List.replicate (-point).toNat '0' ++ digits
        else if count ≤ point then
          sign ++ digits ++ List.replicate (point - count).toNat '0' ++ ".0"
        else sign ++ digits.take point.toNat ++ "." ++ digits.drop point.toNat
      else
        let power := point - 1
        let fractionText : Text := if digits.length ≤ 1 then [] else '.' :: digits.drop 1
        sign ++ digits.take 1 ++ fractionText ++ "e" ++ (if power < 0 then "-" else "+") ++
          ofNatPadded 2 power.natAbs

private def digitsOf? (t : Text) : Option (Nat × Nat) := do
  let values ← t.mapM decimalValue?
  some (values.foldl (fun n d => n * 10 + d) 0, values.length)

/-- Digits with single underscores between them, the underscores dropped. -/
private def withoutUnderscores? (t : Text) : Option Text :=
  if (splitOn '_' t).all (fun piece => piece ≠ []) || t = [] then some (t.filter (· ≠ '_'))
  else none

private def readUnsigned? (negative : Bool) (t : Text) : Option Binary64 := do
  let body := t.map lowerAscii
  if body = ("inf" : Text) ∨ body = ("infinity" : Text) then some (.infinite negative)
  else if body = ("nan" : Text) then some .nan
  else
    let (mantissa, power) := cutAt 'e' body
    let (whole, part) := cutAt '.' mantissa
    let whole ← withoutUnderscores? whole
    let part ← withoutUnderscores? (part.getD [])
    let (n, count) ← digitsOf? (whole ++ part)
    if count = 0 then none
    else
      let shift : Int := part.length
      match power with
      | none => some (ofDecimal negative n (-shift))
      | some p =>
        let (minus, p) := match p with
          | '-' :: p => (true, p)
          | '+' :: p => (false, p)
          | p => (false, p)
        let p ← withoutUnderscores? p
        let (e, size) ← digitsOf? p
        if size = 0 then none
        else some (ofDecimal negative n ((if minus then -(e : Int) else (e : Int)) - shift))

/-- Reads a decimal number, an infinity or a not-a-number, blanks around it allowed. -/
def ofText? (t : Text) : Option Binary64 :=
  match trim t with
  | '-' :: rest => readUnsigned? true rest
  | '+' :: rest => readUnsigned? false rest
  | rest => readUnsigned? false rest

end Binary64

end ApiScaffold
