import ApiScaffold.Value.Display

/-!
# Misused values

The ways in which a value cannot serve where a rule takes it for something else: a number in
place of a mapping, a list as a key, a text that is no number. No rule of a draft covers
these, so they are told apart from the issues that a draft is checked for, and each carries
just what its message needs.
-/
namespace ApiScaffold

open Text Value

inductive Misuse where
  | noPairs (kind : Text)
  | notIterable (kind : Text)
  | unhashable (kind : Text)
  | pairLength (position length : Nat)
  | noPair (position : Nat)
  | notAnInteger (base : Nat) (written : Text)
  | tooManyDigits (count : Nat)
  | tooLongToWrite
  | notANumber (written : Text)
  | unknownWord (word : Text)
  | noFirstCharacter
  | noTimestamp
  | yearRange (year : Nat)
  | monthRange
  | dayRange
  | hourRange
  | minuteRange
  | secondRange
  | offsetRange (shown : Text)
  | codePointRange
  | calendarRange
  | noPath
  deriving DecidableEq, Repr

namespace Misuse

/-- The most digits that a decimal integer is read from or written with. -/
def digitLimit : Nat := 4300

def message : Misuse → Text
  | noPairs kind => "'" ++ kind ++ "' object has no attribute 'items'"
  | notIterable kind => "'" ++ kind ++ "' object is not iterable"
  | unhashable kind => "unhashable type: '" ++ kind ++ "'"
  | pairLength position length =>
    "dictionary update sequence element #" ++ ofNat position ++ " has length " ++ ofNat length ++
      "; 2 is required"
  | noPair position =>
    "cannot convert dictionary update sequence element #" ++ ofNat position ++ " to a sequence"
  | notAnInteger base written =>
    "invalid literal for int() with base " ++ ofNat base ++ ": " ++ (quoted written).take 200
  | tooManyDigits count =>
    "Exceeds the limit (" ++ ofNat digitLimit ++
      " digits) for integer string conversion: value has " ++ ofNat count ++
      " digits; use sys.set_int_max_str_digits() to increase the limit"
  | tooLongToWrite =>
    "Exceeds the limit (" ++ ofNat digitLimit ++
      " digits) for integer string conversion; use sys.set_int_max_str_digits() to increase " ++
      "the limit"
  | notANumber written => "could not convert string to float: " ++ quoted written
  | unknownWord word => quoted word
  | noFirstCharacter => "string index out of range"
  | noTimestamp => "'NoneType' object has no attribute 'groupdict'"
  | yearRange year => "year " ++ ofNat year ++ " is out of range"
  | monthRange => "month must be in 1..12"
  | dayRange => "day is out of range for month"
  | hourRange => "hour must be in 0..23"
  | minuteRange => "minute must be in 0..59"
  | secondRange => "second must be in 0..59"
  | offsetRange shown =>
    "offset must be a timedelta strictly between -timedelta(hours=24) and " ++
      "timedelta(hours=24), not " ++ shown ++ "."
  | codePointRange => "chr() arg not in range(0x110000)"
  | calendarRange => "date value out of range"
  | noPath => "expected str, bytes or os.PathLike object, not NoneType"

end Misuse

end ApiScaffold
