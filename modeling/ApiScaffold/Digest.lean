import ApiScaffold.Text.Utf8

/-!
# SHA-256

The digest of a list of bytes and its text. The message is padded to whole blocks of
64 bytes, and every block stirs eight words through 64 rounds. The message schedule of a
block is kept with its latest word first.
-/
namespace ApiScaffold.Digest

structure Words where
  a : UInt32
  b : UInt32
  c : UInt32
  d : UInt32
  e : UInt32
  f : UInt32
  g : UInt32
  h : UInt32
  deriving DecidableEq, Repr

def initial : Words :=
  ⟨0x6a09e667, 0xbb67ae85, 0x3c6ef372, 0xa54ff53a, 0x510e527f, 0x9b05688c, 0x1f83d9ab,
   0x5be0cd19⟩

def roundConstants : List UInt32 :=
  [0x428a2f98, 0x71374491, 0xb5c0fbcf, 0xe9b5dba5, 0x3956c25b, 0x59f111f1,
   0x923f82a4, 0xab1c5ed5, 0xd807aa98, 0x12835b01, 0x243185be, 0x550c7dc3,
   0x72be5d74, 0x80deb1fe, 0x9bdc06a7, 0xc19bf174, 0xe49b69c1, 0xefbe4786,
   0x0fc19dc6, 0x240ca1cc, 0x2de92c6f, 0x4a7484aa, 0x5cb0a9dc, 0x76f988da,
   0x983e5152, 0xa831c66d, 0xb00327c8, 0xbf597fc7, 0xc6e00bf3, 0xd5a79147,
   0x06ca6351, 0x14292967, 0x27b70a85, 0x2e1b2138, 0x4d2c6dfc, 0x53380d13,
   0x650a7354, 0x766a0abb, 0x81c2c92e, 0x92722c85, 0xa2bfe8a1, 0xa81a664b,
   0xc24b8b70, 0xc76c51a3, 0xd192e819, 0xd6990624, 0xf40e3585, 0x106aa070,
   0x19a4c116, 0x1e376c08, 0x2748774c, 0x34b0bcb5, 0x391c0cb3, 0x4ed8aa4a,
   0x5b9cca4f, 0x682e6ff3, 0x748f82ee, 0x78a5636f, 0x84c87814, 0x8cc70208,
   0x90befffa, 0xa4506ceb, 0xbef9a3f7, 0xc67178f2]

def rotate (n : UInt32) (w : UInt32) : UInt32 := (w >>> n) ||| (w <<< (32 - n))

def word : Bytes → UInt32
  | [a, b, c, d] => (a.toUInt32 <<< 24) ||| (b.toUInt32 <<< 16) ||| (c.toUInt32 <<< 8) ||| d.toUInt32
  | _ => 0

/-- The sixteen words of a block, the last one first. -/
def blockWords (block : Bytes) : List UInt32 :=
  (List.range 16).foldl (fun ws i => word ((block.drop (4 * i)).take 4) :: ws) []

/-- The next word of a schedule, from the sixteen words before it. -/
def nextWord (schedule : List UInt32) : UInt32 :=
  let w2 := schedule.getD 1 0
  let w7 := schedule.getD 6 0
  let w15 := schedule.getD 14 0
  let w16 := schedule.getD 15 0
  let mix2 := rotate 17 w2 ^^^ rotate 19 w2 ^^^ (w2 >>> 10)
  let mix15 := rotate 7 w15 ^^^ rotate 18 w15 ^^^ (w15 >>> 3)
  w16 + mix15 + w7 + mix2

def extend : Nat → List UInt32 → List UInt32
  | 0, schedule => schedule
  | n + 1, schedule => extend n (nextWord schedule :: schedule)

def round (s : Words) (k w : UInt32) : Words :=
  let mixE := rotate 6 s.e ^^^ rotate 11 s.e ^^^ rotate 25 s.e
  let choice := (s.e &&& s.f) ^^^ (~~~s.e &&& s.g)
  let t := s.h + mixE + choice + k + w
  let mixA := rotate 2 s.a ^^^ rotate 13 s.a ^^^ rotate 22 s.a
  let majority := (s.a &&& s.b) ^^^ (s.a &&& s.c) ^^^ (s.b &&& s.c)
  ⟨t + (mixA + majority), s.a, s.b, s.c, s.d + t, s.e, s.f, s.g⟩

def Words.add (s t : Words) : Words :=
  ⟨s.a + t.a, s.b + t.b, s.c + t.c, s.d + t.d, s.e + t.e, s.f + t.f, s.g + t.g, s.h + t.h⟩

def block (s : Words) (bytes : Bytes) : Words :=
  let schedule := (extend 48 (blockWords bytes)).reverse
  s.add ((roundConstants.zip schedule).foldl (fun s kw => round s kw.1 kw.2) s)

/-- Stirs in the given number of blocks. -/
def blocks : Nat → Words → Bytes → Words
  | 0, s, _ => s
  | n + 1, s, bytes => blocks n (block s (bytes.take 64)) (bytes.drop 64)

/-- The bytes of a number, the highest first. -/
def bigEndian : Nat → Nat → Bytes
  | 0, _ => []
  | width + 1, n => bigEndian width (n / 256) ++ [UInt8.ofNat (n % 256)]

/-- The message with a one bit, zeros and its length in bits, in whole blocks. -/
def padded (message : Bytes) : Bytes :=
  let zeros := (119 - message.length % 64) % 64
  message ++ 0x80 :: List.replicate zeros 0 ++ bigEndian 8 (8 * message.length)

def sha256 (message : Bytes) : Words :=
  let bytes := padded message
  blocks (bytes.length / 64) initial bytes

def Words.text (s : Words) : Text :=
  [s.a, s.b, s.c, s.d, s.e, s.f, s.g, s.h].flatMap fun w => Text.hex 8 w.toNat

/-- The digest of a text in UTF-8, in lower-case hexadecimal. -/
def ofText (t : Text) : Text := (sha256 (Text.utf8 t)).text

end ApiScaffold.Digest
