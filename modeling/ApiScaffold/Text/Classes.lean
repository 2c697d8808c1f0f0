import ApiScaffold.Text.Basic
import ApiScaffold.Text.LowerTable
import ApiScaffold.Text.UnprintableTable
import ApiScaffold.Text.WordTable

/-!
# Classes of characters

Blanks, word characters, digits, printable characters and lower case, each in the sense
of Unicode. ASCII is decided by comparison and only the rest by table, so a law about
ASCII text never looks at a table. Lower case turns every capital sigma into the
medial small sigma.
-/
namespace ApiScaffold.Text

private def inRanges (ranges : List (Nat × Nat)) (n : Nat) : Bool :=
  ranges.any fun r => r.1 ≤ n && n ≤ r.2

def isAsciiUpper (c : Char) : Bool := 'A' ≤ c && c ≤ 'Z'

def isAsciiLower (c : Char) : Bool := 'a' ≤ c && c ≤ 'z'

def isAsciiDigit (c : Char) : Bool := '0' ≤ c && c ≤ '9'

def isAsciiLetter (c : Char) : Bool := isAsciiUpper c || isAsciiLower c

/-- The letters and digits of ASCII. -/
def isAsciiAlnum (c : Char) : Bool := isAsciiLetter c || isAsciiDigit c

/-- White space, the information separators and the next-line control included. -/
def isBlank (c : Char) : Bool :=
  let n := c.toNat
  (9 ≤ n && n ≤ 13) || (28 ≤ n && n ≤ 32) || n == 0x85 || n == 0xA0 || n == 0x1680 ||
    (0x2000 ≤ n && n ≤ 0x200A) || n == 0x2028 || n == 0x2029 || n == 0x202F || n == 0x205F ||
    n == 0x3000

/-- A letter, a number or an underscore. -/
def isWordChar (c : Char) : Bool :=
  if c.toNat < 128 then isAsciiAlnum c || c == '_' else inRanges wordRanges c.toNat

def isPrintable (c : Char) : Bool :=
  if c.toNat < 128 then 32 ≤ c.toNat && c.toNat < 127
  else !inRanges unprintableRanges c.toNat

/-- The zeros of the decimal digits beyond ASCII; nine more digits follow each of them. -/
def decimalZeros : List Nat :=
  [1632, 1776, 1984, 2406, 2534, 2662, 2790, 2918, 3046, 3174, 3302, 3430, 3558, 3664, 3792, 
   3872, 4160, 4240, 6112, 6160, 6470, 6608, 6784, 6800, 6992, 7088, 7232, 7248, 42528, 43216, 
   43264, 43472, 43504, 43600, 44016, 65296, 66720, 68912, 69734, 69872, 69942, 70096, 70384, 
   70736, 70864, 71248, 71360, 71472, 71904, 72016, 72784, 73040, 73120, 92768, 92864, 93008, 
   120782, 120792, 120802, 120812, 120822, 123200, 123632, 125264, 130032]

/-- The digits beyond ASCII without a place in a decimal number, such as superscripts. -/
def nonDecimalDigits : List (Nat × Nat) :=
  [(178, 179), (185, 185), (4969, 4977), (6618, 6618), (8304, 8304), (8308, 8313), (8320, 
   8329), (9312, 9320), (9332, 9340), (9352, 9360), (9450, 9450), (9461, 9469), (9471, 9471), 
   (10102, 10110), (10112, 10120), (10122, 10130), (68160, 68163), (69216, 69224), (69714, 
   69722), (127232, 127242)]

/-- The value of a decimal digit of any script. -/
def decimalValue? (c : Char) : Option Nat :=
  if c.toNat < 128 then if isAsciiDigit c then some (c.toNat - 48) else none
  else (decimalZeros.find? fun z => z ≤ c.toNat && c.toNat < z + 10).map (c.toNat - ·)

/-- A digit of any kind, decimal or not. -/
def isDigitLike (c : Char) : Bool :=
  (decimalValue? c).isSome || inRanges nonDecimalDigits c.toNat

/-- Lower case for the letters of ASCII alone. -/
def lowerAscii (c : Char) : Char :=
  if isAsciiUpper c then Char.ofNat (c.toNat + 32) else c

/-- Upper case for the letters of ASCII alone. -/
def upperAscii (c : Char) : Char :=
  if isAsciiLower c then Char.ofNat (c.toNat - 32) else c

private def lowerWide (c : Char) : Text :=
  if c.toNat = 0x130 then ['i', Char.ofNat 0x307]
  else match lowerRuns.find? fun r =>
      r.1 ≤ c.toNat && c.toNat ≤ r.2.1 && (c.toNat - r.1) % r.2.2.1 == 0 with
    | some r => [Char.ofNat (Int.ofNat c.toNat + r.2.2.2).toNat]
    | none => [c]

/-- The lower case of one character, which for U+0130 has two characters. -/
def lowerChar (c : Char) : Text :=
  if c.toNat < 128 then [lowerAscii c] else lowerWide c

theorem lowerChar_cases (c : Char) :
    (∃ d, lowerChar c = [d]) ∨ lowerChar c = ['i', Char.ofNat 0x307] := by
  unfold lowerChar lowerWide
  split
  · exact Or.inl ⟨_, rfl⟩
  · split
    · exact Or.inr rfl
    · split
      · exact Or.inl ⟨_, rfl⟩
      · exact Or.inl ⟨_, rfl⟩

def lower (t : Text) : Text := t.flatMap lowerChar

/-- The text without blanks at its ends. -/
def trim (t : Text) : Text := strip isBlank t

/-- The maximal runs without blanks. -/
def tokens : Text → List Text
  | [] => []
  | c :: cs =>
    if isBlank c then tokens cs
    else
      match cs, tokens cs with
      | d :: _, piece :: rest => if isBlank d then [c] :: piece :: rest else (c :: piece) :: rest
      | _, rest => [c] :: rest

end ApiScaffold.Text
