import ApiScaffold.Text.Basic

/-!
# UTF-8

Encoding of text, and strict decoding that says which bytes are wrong and why: a byte that
cannot start a character, a byte that cannot go on with one, or an end in the middle of one.
Overlong forms, surrogates and numbers beyond U+10FFFF are refused at the byte that shows
them. Text read from a file has every kind of line end turned into a line feed.
-/
namespace ApiScaffold

abbrev Bytes := List UInt8

namespace Text

def utf8 (t : Text) : Bytes := t.flatMap String.utf8EncodeChar

inductive DecodeReason where
  | badStart | badContinuation | truncated
  deriving DecidableEq, Repr

/-- The bytes from `first` to `last` that do not decode; `byte` is the one at `first`. -/
structure DecodeError where
  byte : UInt8
  first : Nat
  last : Nat
  reason : DecodeReason
  deriving DecidableEq, Repr

namespace DecodeError

def message (e : DecodeError) : Text :=
  let place : Text :=
    if e.first = e.last then
      "byte 0x" ++ hex 2 e.byte.toNat ++ " in position " ++ ofNat e.first
    else "bytes in position " ++ ofNat e.first ++ "-" ++ ofNat e.last
  let reason : Text := match e.reason with
    | .badStart => "invalid start byte"
    | .badContinuation => "invalid continuation byte"
    | .truncated => "unexpected end of data"
  "'utf-8' codec can't decode " ++ place ++ ": " ++ reason

end DecodeError

/-- What a first byte announces: the number of bytes after it, the bits it gives, and the
range of the second byte. -/
structure Lead where
  more : Nat
  bits : Nat
  low : Nat := 0x80
  high : Nat := 0xBF

def lead? (b : UInt8) : Option Lead :=
  let n := b.toNat
  if n < 0x80 then some ⟨0, n, 0x80, 0xBF⟩
  else if n < 0xC2 then none
  else if n < 0xE0 then some ⟨1, n - 0xC0, 0x80, 0xBF⟩
  else if n = 0xE0 then some ⟨2, 0, 0xA0, 0xBF⟩
  else if n = 0xED then some ⟨2, 13, 0x80, 0x9F⟩
  else if n < 0xF0 then some ⟨2, n - 0xE0, 0x80, 0xBF⟩
  else if n = 0xF0 then some ⟨3, 0, 0x90, 0xBF⟩
  else if n = 0xF4 then some ⟨3, 4, 0x80, 0x8F⟩
  else if n < 0xF5 then some ⟨3, n - 0xF0, 0x80, 0xBF⟩
  else none

/-- Decodes from the given position; `pending` holds the start, the first byte, the bits so far, the
count of bytes still to come and the range of the next one. -/
private def decodeFrom (position : Nat) (pending : Option (Nat × UInt8 × Lead)) :
    Bytes → Except DecodeError Text
  | [] =>
    match pending with
    | none => .ok []
    | some (start, byte, _) => .error ⟨byte, start, position - 1, .truncated⟩
  | b :: rest =>
    match pending with
    | none =>
      match lead? b with
      | none => .error ⟨b, position, position, .badStart⟩
      | some ⟨0, bits, _, _⟩ => (decodeFrom (position + 1) none rest).map (Char.ofNat bits :: ·)
      | some lead => decodeFrom (position + 1) (some (position, b, lead)) rest
    | some (start, byte, lead) =>
      if lead.low ≤ b.toNat ∧ b.toNat ≤ lead.high then
        let bits := lead.bits * 64 + (b.toNat - 0x80)
        if lead.more ≤ 1 then (decodeFrom (position + 1) none rest).map (Char.ofNat bits :: ·)
        else decodeFrom (position + 1) (some (start, byte, ⟨lead.more - 1, bits, 0x80, 0xBF⟩)) rest
      else .error ⟨byte, start, position - 1, .badContinuation⟩

def ofUtf8 (bytes : Bytes) : Except DecodeError Text := decodeFrom 0 none bytes

/-- Turns carriage returns, alone or before a line feed, into line feeds. -/
def unifyLineEnds : Text → Text
  | '\r' :: '\n' :: rest => '\n' :: unifyLineEnds rest
  | '\r' :: rest => '\n' :: unifyLineEnds rest
  | c :: rest => c :: unifyLineEnds rest
  | [] => []

/-- The text of a file. -/
def ofFile (bytes : Bytes) : Except DecodeError Text := (ofUtf8 bytes).map unifyLineEnds

end Text

end ApiScaffold
