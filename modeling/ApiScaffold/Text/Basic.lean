/-!
# Text as a list of characters

Every name, path, literal and file body of the library is a list of characters,
so a law about text is a law about lists. String literals are read as text where
text is expected. Nothing here depends on a character table; those are in the
modules beside this one.
-/
namespace ApiScaffold

abbrev Text := List Char

instance : Coe String Text := ⟨String.toList⟩

namespace Text

/-- The pieces between the occurrences of a separator: always at least one. -/
def splitOn (sep : Char) : Text → List Text
  | [] => [[]]
  | c :: cs =>
    if c = sep then [] :: splitOn sep cs
    else match splitOn sep cs with
      | [] => [[c]]
      | piece :: rest => (c :: piece) :: rest

theorem splitOn_ne_nil (sep : Char) (t : Text) : splitOn sep t ≠ [] := by
  cases t with
  | nil => simp [splitOn]
  | cons c cs =>
    simp only [splitOn]
    split
    · simp
    · split <;> simp

def join (sep : Text) : List Text → Text
  | [] => []
  | [piece] => piece
  | piece :: rest => piece ++ sep ++ join sep rest

@[simp] theorem join_nil (sep : Text) : join sep [] = [] := rfl

@[simp] theorem join_single (sep piece : Text) : join sep [piece] = piece := rfl

theorem join_cons_cons (sep a b : Text) (rest : List Text) :
    join sep (a :: b :: rest) = a ++ sep ++ join sep (b :: rest) := rfl

theorem join_splitOn (sep : Char) (t : Text) : join [sep] (splitOn sep t) = t := by
  induction t with
  | nil => rfl
  | cons c cs ih =>
    simp only [splitOn]
    cases hs : splitOn sep cs with
    | nil => exact absurd hs (splitOn_ne_nil sep cs)
    | cons piece rest =>
      rw [hs] at ih
      by_cases hc : c = sep
      · simp [hc, join_cons_cons, ih]
      · cases rest with
        | nil => simp_all
        | cons b rest => simp_all [join_cons_cons]

def stripLeft (p : Char → Bool) (t : Text) : Text := t.dropWhile p

def stripRight (p : Char → Bool) (t : Text) : Text := (t.reverse.dropWhile p).reverse

def strip (p : Char → Bool) (t : Text) : Text := stripRight p (stripLeft p t)

/-- Drops the given character from both ends. -/
def stripChar (c : Char) (t : Text) : Text := strip (· == c) t

def beginsWith (start t : Text) : Bool := start.isPrefixOf t

def endsWith (tail t : Text) : Bool := tail.isSuffixOf t

def endsWithAny (tails : List Text) (t : Text) : Bool := tails.any (endsWith · t)

/-- Whether the needle occurs in the text at some position. -/
def occursIn (needle : Text) : Text → Bool
  | [] => needle.isEmpty
  | c :: cs => needle.isPrefixOf (c :: cs) || occursIn needle cs

def replaceChar (c : Char) (new t : Text) : Text :=
  t.flatMap fun d => if d = c then new else [d]

/-- The text without its last `n` characters. -/
def dropEnd (n : Nat) (t : Text) : Text := t.take (t.length - n)

/-- The part before the first occurrence of a character and, if there is one, the part after it. -/
def cutAt (c : Char) (t : Text) : Text × Option Text :=
  match t.dropWhile (· != c) with
  | [] => (t, none)
  | _ :: after => (t.takeWhile (· != c), some after)

/-- What follows the last occurrence of a character, or everything when it does not occur. -/
def afterLast (c : Char) (t : Text) : Text := (t.reverse.takeWhile (· != c)).reverse

def padRight (width : Nat) (t : Text) : Text := t ++ List.replicate (width - t.length) ' '

def spaces (n : Nat) : Text := List.replicate n ' '

def ofNat (n : Nat) : Text := Nat.toDigits 10 n

def ofInt : Int → Text
  | .ofNat n => ofNat n
  | .negSucc n => '-' :: ofNat (n + 1)

/-- A number with leading zeros up to the given width. -/
def ofNatPadded (width n : Nat) : Text :=
  let digits := ofNat n
  List.replicate (width - digits.length) '0' ++ digits

/-- The last `width` hexadecimal digits of a number, in lower case. -/
def hex : Nat → Nat → Text
  | 0, _ => []
  | width + 1, n => hex width (n / 16) ++ [Nat.digitChar (n % 16)]

private def groupThousands : Text → Text
  | a :: b :: c :: d :: rest => a :: b :: c :: ',' :: groupThousands (d :: rest)
  | short => short

/-- A number with a comma before every group of three digits. -/
def ofNatGrouped (n : Nat) : Text := (groupThousands (ofNat n).reverse).reverse

/-- The order of texts by code point. -/
def le : Text → Text → Bool
  | [], _ => true
  | _ :: _, [] => false
  | a :: s, b :: t => if a = b then le s t else a.val < b.val

def sort (texts : List Text) : List Text := texts.mergeSort le

/-- The first occurrences, in order. -/
def distinct : List Text → List Text
  | [] => []
  | t :: rest => t :: (distinct rest).filter (· ≠ t)

/-- The names met more than once, each once, in the order of code points. -/
def repeated (texts : List Text) : List Text :=
  sort (distinct (texts.filter fun t => 1 < texts.count t))

end Text

end ApiScaffold
