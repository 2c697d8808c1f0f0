import ApiScaffold.ControllerFile
import ApiScaffold.Proofs.LiteralReading
import ApiScaffold.Proofs.NameCharacters
import ApiScaffold.Proofs.Results

/-!
# Reading attributes back

A reader of one attribute: a name and, in round brackets, constants that may each have a name in
front. A constant is a string in single quotes, a number or a truth value. The attribute of a body
parameter is read back as its parts, whatever text the draft has for the column, and the reader
stops right behind it. Constant expressions of other kinds are not covered.
-/
namespace ApiScaffold.PhpLiteral

open Text

section

variable {p : Char → Bool} {word rest t : Text}

theorem takeWhile_stop (hword : ∀ c ∈ word, p c = true) (hrest : ∀ c ∈ rest.head?, p c = false) :
    (word ++ rest).takeWhile p = word := by
  rw [List.takeWhile_append_of_pos hword]
  cases rest with
  | nil => simp
  | cons c cs => simp [hrest c rfl]

theorem dropWhile_stop (hword : ∀ c ∈ word, p c = true) (hrest : ∀ c ∈ rest.head?, p c = false) :
    (word ++ rest).dropWhile p = rest := by
  rw [List.dropWhile_append_of_pos hword]
  cases rest with
  | nil => rfl
  | cons c cs => simp [hrest c rfl]

theorem dropWhile_length_lt (h : t.takeWhile p ≠ []) : (t.dropWhile p).length < t.length := by
  have hsplit := congrArg List.length (List.takeWhile_append_dropWhile (p := p) (l := t))
  have hpos := List.length_pos_iff.mpr h
  rw [List.length_append] at hsplit
  omega

end

/-- What a literal stands for. A number is given by its digits, read as one whole number, and by
how many of them are behind the point. -/
inductive Constant where
  | string (value : Text)
  | number (units places : Nat)
  | truth (value : Bool)
  deriving DecidableEq, Repr

/-- Digits that are no octal number: a zero stands in front only when it is alone. -/
def isWhole (digits : Text) : Bool :=
  digits ≠ [] && digits.all isAsciiDigit && (digits.head? ≠ some '0' || digits = ['0'])

namespace Reader

variable {α β : Type}

def map (f : α → β) (r : Reader α) : Reader β where
  read t := (r.read t).map (Prod.map f id)
  shorter := by
    intro t b rest h
    obtain ⟨⟨a, rest'⟩, hread, heq⟩ := Option.map_eq_some_iff.mp h
    cases heq
    exact r.shorter hread

/-- The first of two readers that takes something. -/
def orElse (r s : Reader α) : Reader α where
  read t := (r.read t).or (s.read t)
  shorter := by
    intro t a rest h
    rcases Option.or_eq_some_iff.mp h with h | ⟨_, h⟩
    · exact r.shorter h
    · exact s.shorter h

section

variable {r s : Reader α} {t rest : Text} {a : α}

theorem map_read (f : α → β) (h : r.read t = some (a, rest)) :
    (r.map f).read t = some (f a, rest) := by
  simp [map, h]

theorem map_read_none (f : α → β) (h : r.read t = none) : (r.map f).read t = none := by
  simp [map, h]

theorem orElse_read_left (h : r.read t = some (a, rest)) :
    (r.orElse s).read t = some (a, rest) := by
  simp [orElse, h]

theorem orElse_read_right (h : r.read t = none) : (r.orElse s).read t = s.read t := by
  simp [orElse, h]

end

def number : Reader Constant where
  read t :=
    let whole := t.takeWhile isAsciiDigit
    if isWhole whole then
      match t.dropWhile isAsciiDigit with
      | '.' :: behind =>
        let places := behind.takeWhile isAsciiDigit
        if places = [] then none
        else some (.number (Nat.ofDigitChars 10 (whole ++ places) 0) places.length,
          behind.dropWhile isAsciiDigit)
      | rest => some (.number (Nat.ofDigitChars 10 whole 0) 0, rest)
    else none
  shorter := by
    intro t value rest h
    dsimp only at h
    split at h
    case isTrue hwhole =>
      have hlt : (t.dropWhile isAsciiDigit).length < t.length :=
        dropWhile_length_lt (by simp_all [isWhole])
      split at h
      · rename_i behind hbehind
        rw [hbehind, List.length_cons] at hlt
        have hle := (List.dropWhile_suffix isAsciiDigit (l := behind)).length_le
        split at h
        · cases h
        · cases h
          omega
      · cases h
        exact hlt
    case isFalse => cases h

def truth : Reader Constant where
  read t :=
    let word := t.takeWhile isIdentifierChar
    let rest := t.dropWhile isIdentifierChar
    if word = "true" then some (.truth true, rest)
    else if word = "false" then some (.truth false, rest)
    else none
  shorter := by
    intro t value rest h
    dsimp only at h
    split at h
    case isTrue hword =>
      cases h
      exact dropWhile_length_lt (by simp [hword])
    case isFalse =>
      split at h
      case isTrue hword =>
        cases h
        exact dropWhile_length_lt (by simp [hword])
      case isFalse => cases h

def constant : Reader Constant := (string.map .string).orElse (number.orElse truth)

/-- A name with a colon behind it. -/
def label : Reader Text where
  read t :=
    let name := t.takeWhile isIdentifierChar
    if isIdentifier name then
      match nextMark (t.dropWhile isIdentifierChar) with
      | some (':', rest) => some (name, rest)
      | _ => none
    else none
  shorter := by
    intro t name rest h
    dsimp only at h
    split at h
    · split at h
      · rename_i hmark
        cases h
        have hlt := nextMark_length_lt hmark
        have hle := (List.dropWhile_suffix isIdentifierChar (l := t)).length_le
        omega
      · cases h
    · cases h

end Reader

/-- A constant that is passed on, by position or by name. -/
structure Argument where
  name : Option Text
  value : Constant
  deriving DecidableEq, Repr

structure Attribute where
  name : Text
  arguments : List Argument
  deriving DecidableEq, Repr

namespace Reader

def namedArgument : Reader Argument where
  read t :=
    (label.read t).bind fun found =>
      (constant.read (skipSpace found.2)).map (Prod.map (Argument.mk (some found.1)) id)
  shorter := by
    intro t argument rest h
    obtain ⟨⟨name, behind⟩, hlabel, hvalue⟩ := Option.bind_eq_some_iff.mp h
    obtain ⟨⟨value, rest'⟩, hread, heq⟩ := Option.map_eq_some_iff.mp hvalue
    cases heq
    have hname := label.shorter hlabel
    have hskip := skipSpace_length_le behind
    have hconstant := constant.shorter hread
    dsimp only [id] at *
    omega

def argument : Reader Argument := namedArgument.orElse (constant.map (Argument.mk none))

end Reader

/-- An attribute with its arguments. -/
def readAttribute : Text → Option (Attribute × Text)
  | '#' :: '[' :: t =>
    let name := t.takeWhile isIdentifierChar
    match t.dropWhile isIdentifierChar with
    | '(' :: inner =>
      if isIdentifier name then
        (Reader.argument.upTo ')' inner).bind fun found =>
          match nextMark found.2 with
          | some (']', rest) => some (⟨name, found.1⟩, rest)
          | _ => none
      else none
    | _ => none
  | _ => none

theorem readAttribute_length_lt {t rest : Text} {a : Attribute}
    (h : readAttribute t = some (a, rest)) : rest.length < t.length := by
  unfold readAttribute at h
  split at h
  · rename_i t
    dsimp only at h
    split at h
    · rename_i inner hinner
      split_ifs at h
      obtain ⟨⟨arguments, behind⟩, harguments, hmark⟩ := Option.bind_eq_some_iff.mp h
      split at hmark
      · rename_i hclose
        cases hmark
        have hend := nextMark_length_lt hclose
        have hlist := Reader.upTo_length_lt harguments
        have hname := (List.dropWhile_suffix isIdentifierChar (l := t)).length_le
        rw [hinner, List.length_cons] at hname
        simp only [List.length_cons] at hend ⊢
        omega
      · cases hmark
    · cases h
  · cases h

namespace Reader

def wholeAttribute : Reader Attribute where
  read := readAttribute
  shorter := readAttribute_length_lt

end Reader

/-- What may follow a word or a number without going on with it. -/
def Stops (rest : Text) : Prop := ∀ c ∈ rest.head?, isIdentifierChar c = false ∧ c ≠ '.'

/-- A literal that is read as a constant, whatever follows it. -/
structure Denotes (literal : Text) (value : Constant) : Prop where
  start : ∃ c rest, literal = c :: rest ∧ isSpace c = false
  reads : ∀ rest, Stops rest → Reader.constant.read (literal ++ rest) = some (value, rest)

theorem isAsciiDigit_of_isIdentifierChar_false {c : Char} (h : isIdentifierChar c = false) :
    isAsciiDigit c = false := by
  simp_all [isIdentifierChar, isAsciiAlnum]

theorem isSpace_of_isIdentifierChar {c : Char} (h : isIdentifierChar c = true) :
    isSpace c = false := by
  by_contra hspace
  simp only [Bool.not_eq_false, isSpace, Bool.or_eq_true, decide_eq_true_eq] at hspace
  rcases hspace with ((rfl | rfl) | rfl) | rfl <;> cases h

theorem string_denotes (value : Text) : Denotes (quote value) (.string value) where
  start := ⟨'\'', _, rfl, rfl⟩
  reads rest _ := Reader.orElse_read_left (Reader.map_read _ (Reader.string_quote value rest))

theorem Reader.string_read_none {c : Char} (h : c ≠ '\'') (t : Text) :
    Reader.string.read (c :: t) = none := by
  simp only [Reader.string]
  split
  · simp_all
  · rfl

theorem isWhole_iff {digits : Text} :
    isWhole digits = true ↔ digits ≠ [] ∧ (∀ c ∈ digits, isAsciiDigit c = true) ∧
      (digits.head? ≠ some '0' ∨ digits = ['0']) := by
  simp [isWhole, and_assoc]

theorem isWhole_start {digits : Text} (h : isWhole digits = true) :
    ∃ c rest, digits = c :: rest ∧ isAsciiDigit c = true := by
  obtain ⟨hsome, hdigits, -⟩ := isWhole_iff.mp h
  obtain ⟨c, cs, rfl⟩ := List.exists_cons_of_ne_nil hsome
  exact ⟨c, cs, rfl, hdigits c List.mem_cons_self⟩

/-- Digits are no string, so they are left to the reader of numbers. -/
theorem Reader.constant_read_digits {digits : Text} (h : isWhole digits = true) {rest behind : Text}
    {value : Constant} (hnumber : number.read (digits ++ rest) = some (value, behind)) :
    constant.read (digits ++ rest) = some (value, behind) := by
  obtain ⟨c, cs, rfl, hc⟩ := isWhole_start h
  have hquote : c ≠ '\'' := by
    rintro rfl
    cases hc
  have hstring : string.read (c :: cs ++ rest) = none := string_read_none hquote _
  rw [constant, orElse_read_right (map_read_none _ hstring)]
  exact orElse_read_left hnumber

theorem Stops.isAsciiDigit {rest : Text} (h : Stops rest) :
    ∀ c ∈ rest.head?, isAsciiDigit c = false := fun c hc =>
  isAsciiDigit_of_isIdentifierChar_false (h c hc).1

theorem isSpace_of_isAsciiDigit {c : Char} (h : isAsciiDigit c = true) : isSpace c = false :=
  isSpace_of_isIdentifierChar (by simp [isIdentifierChar, isAsciiAlnum, h])

theorem whole_denotes {digits : Text} (h : isWhole digits = true) :
    Denotes digits (.number (Nat.ofDigitChars 10 digits 0) 0) where
  start := by
    obtain ⟨c, cs, heq, hc⟩ := isWhole_start h
    exact ⟨c, cs, heq, isSpace_of_isAsciiDigit hc⟩
  reads rest hrest := by
    obtain ⟨-, hdigits, -⟩ := isWhole_iff.mp h
    refine Reader.constant_read_digits h ?_
    simp only [Reader.number, takeWhile_stop hdigits hrest.isAsciiDigit,
      dropWhile_stop hdigits hrest.isAsciiDigit, h, if_true]
    split
    · exact absurd rfl (hrest '.' rfl).2
    · rfl

theorem decimal_denotes (whole places : Text) (hwhole : isWhole whole = true)
    (hplaces : places.all isAsciiDigit = true) (hsome : places ≠ []) :
    Denotes (whole ++ '.' :: places)
      (.number (Nat.ofDigitChars 10 (whole ++ places) 0) places.length) where
  start := by
    obtain ⟨c, cs, rfl, hc⟩ := isWhole_start hwhole
    exact ⟨c, _, rfl, isSpace_of_isAsciiDigit hc⟩
  reads rest hrest := by
    obtain ⟨-, hdigits, -⟩ := isWhole_iff.mp hwhole
    have hplaces := List.all_eq_true.mp hplaces
    rw [List.append_assoc]
    refine Reader.constant_read_digits hwhole ?_
    have hpoint : ∀ c ∈ ('.' :: (places ++ rest)).head?, isAsciiDigit c = false := by
      rintro c ⟨⟩
      rfl
    simp only [Reader.number, List.cons_append, takeWhile_stop hdigits hpoint,
      dropWhile_stop hdigits hpoint, takeWhile_stop hplaces hrest.isAsciiDigit,
      dropWhile_stop hplaces hrest.isAsciiDigit, hwhole, if_true, if_neg hsome]

theorem truth_denotes (value : Bool) :
    Denotes (if value then "true" else "false" : Text) (.truth value) := by
  constructor
  · cases value
    · exact ⟨'f', _, rfl, rfl⟩
    · exact ⟨'t', _, rfl, rfl⟩
  · intro rest hrest
    have hword : ∀ c ∈ (if value then "true" else "false" : Text), isIdentifierChar c = true := by
      cases value <;> exact List.all_eq_true.mp rfl
    have hstop : ∀ c ∈ rest.head?, isIdentifierChar c = false := fun c hc => (hrest c hc).1
    have htruth : Reader.truth.read ((if value then "true" else "false" : Text) ++ rest) =
        some (.truth value, rest) := by
      simp only [Reader.truth, takeWhile_stop hword hstop, dropWhile_stop hword hstop]
      cases value <;> rfl
    cases value
    all_goals
      rw [Reader.constant, Reader.orElse_read_right (Reader.map_read_none _ rfl),
        Reader.orElse_read_right rfl]
      exact htruth

/-- A written number has no zero in front. -/
theorem head?_ofNat_ne {n : Nat} (h : 0 < n) : (ofNat n).head? ≠ some '0' := by
  induction n using Nat.strongRecOn with
  | ind n ih =>
    rcases Nat.lt_or_ge n 10 with hlt | hge
    · have hdigit : ∀ n < 10, 0 < n → Nat.digitChar n ≠ '0' := by decide
      rw [ofNat, Nat.toDigits_of_lt_base hlt]
      simpa using hdigit n hlt h
    · have hhead := ih (n / 10) (by omega) (by omega)
      rw [ofNat] at hhead ⊢
      rwa [Nat.toDigits_of_base_le (by decide) hge,
        List.head?_append_of_ne_nil _ Nat.toDigits_ne_nil]

theorem isWhole_ofNat (n : Nat) : isWhole (ofNat n) = true := by
  refine isWhole_iff.mpr ⟨Nat.toDigits_ne_nil, fun c hc => ?_, ?_⟩
  · have hdigit := Nat.isDigit_of_mem_toDigits (by decide) (by decide) hc
    simpa [isAsciiDigit, Char.isDigit, Char.le_def] using hdigit
  · rcases Nat.eq_zero_or_pos n with rfl | hpos
    · exact Or.inr rfl
    · exact Or.inl (head?_ofNat_ne hpos)

theorem ofNat_denotes (n : Nat) : Denotes (ofNat n) (.number n 0) := by
  have hdenotes := whole_denotes (isWhole_ofNat n)
  rwa [ofNat, Nat.ofDigitChars_ten_toDigits] at hdenotes

section

variable {literal : Text} {value : Constant}

/-- A literal on its own. -/
theorem Denotes.alone (h : Denotes literal value) :
    Reader.constant.read literal = some (value, []) := by
  simpa using h.reads [] (by simp [Stops])

theorem stops_mark {mark : Char} (h : mark = ',' ∨ mark = ')') (rest : Text) :
    Stops (mark :: rest) := by
  rintro c ⟨⟩
  rcases h with rfl | rfl <;> decide

/-- A string that is passed by position. -/
theorem string_argument_spells (value : Text) :
    Reader.Spells ')' Reader.argument (quote value) ⟨none, .string value⟩ where
  start := ⟨'\'', _, rfl, rfl⟩
  reads mark rest hmark := by
    have hvalue := (string_denotes value).reads (mark :: rest) (stops_mark hmark rest)
    have hnamed : Reader.namedArgument.read (quote value ++ mark :: rest) = none := rfl
    rw [Reader.argument, Reader.orElse_read_right hnamed]
    exact Reader.map_read _ hvalue

/-- An argument with its name in front. -/
def named (name piece : Text) : Text := name ++ ": " ++ piece

/-- A constant that is passed by name. -/
theorem Denotes.spells_named {name : Text} (hname : isIdentifier name = true)
    (h : Denotes literal value) :
    Reader.Spells ')' Reader.argument (named name literal) ⟨some name, value⟩ where
  start := by
    cases name with
    | nil => cases hname
    | cons c cs =>
      have hc := (isIdentifier_iff.mp hname).2 c List.mem_cons_self
      exact ⟨c, _, rfl, isSpace_of_isIdentifierChar hc⟩
  reads mark rest hmark := by
    obtain ⟨c, cs, heq, hc⟩ := h.start
    have hskip : skipSpace (' ' :: (literal ++ mark :: rest)) = literal ++ mark :: rest := by
      rw [heq]
      exact skipSpace_cons hc _
    have hchars := (isIdentifier_iff.mp hname).2
    have hcolon : ∀ c ∈ (':' :: ' ' :: (literal ++ mark :: rest)).head?,
        isIdentifierChar c = false := by
      rintro c ⟨⟩
      rfl
    have hlabel : Reader.label.read (name ++ ':' :: ' ' :: (literal ++ mark :: rest)) =
        some (name, ' ' :: (literal ++ mark :: rest)) := by
      simp only [Reader.label, takeWhile_stop hchars hcolon, dropWhile_stop hchars hcolon, hname,
        if_true]
      rfl
    have hnamed : Reader.namedArgument.read (name ++ ':' :: ' ' :: (literal ++ mark :: rest)) =
        some (⟨some name, value⟩, mark :: rest) := by
      simp only [Reader.namedArgument, hlabel, Option.bind_some, hskip,
        h.reads _ (stops_mark hmark rest)]
      rfl
    simpa [Reader.argument, named] using Reader.orElse_read_left hnamed

end

/-- An attribute is read back from its name and its arguments, whatever follows it. -/
theorem readAttribute_append {name : Text} (hname : isIdentifier name = true) {pieces : List Text}
    {arguments : List Argument}
    (h : List.Forall₂ (Reader.Spells ')' Reader.argument) pieces arguments) (hsome : pieces ≠ [])
    (rest : Text) :
    readAttribute ("#[" ++ name ++ "(" ++ join ", " pieces ++ ")]" ++ rest) =
      some (⟨name, arguments⟩, rest) := by
  have hopen : ∀ c ∈ ('(' :: (join ", " pieces ++ ')' :: ']' :: rest)).head?,
      isIdentifierChar c = false := by
    rintro c ⟨⟩
    rfl
  have hchars := (isIdentifier_iff.mp hname).2
  have hblank : ∀ c ∈ [' '], isSpace c = true := List.all_eq_true.mp rfl
  have harguments : Reader.argument.upTo ')' ([] ++ (join ", " pieces ++ ')' :: ']' :: rest)) =
      some (arguments, ']' :: rest) :=
    Reader.upTo_join rfl hblank
      (fun _ _ _ hlead hpiece => Reader.upTo_single rfl (by decide) hpiece hlead) h hsome (by simp)
  rw [List.nil_append] at harguments
  have hsplit : "#[" ++ name ++ "(" ++ join ", " pieces ++ ")]" ++ rest =
      '#' :: '[' :: (name ++ '(' :: (join ", " pieces ++ ')' :: ']' :: rest)) := by
    simp
  rw [hsplit, readAttribute]
  simp only [takeWhile_stop hchars hopen, dropWhile_stop hchars hopen, hname, if_true, harguments]
  rfl

end ApiScaffold.PhpLiteral

namespace ApiScaffold

open Text PhpLiteral

namespace Example

theorem numberExample?_mem {column literal : Text} {table : List (List Text × Text)}
    (h : numberExample? column table = some literal) : literal ∈ table.map (·.2) := by
  obtain ⟨row, hrow, rfl⟩ := Option.map_eq_some_iff.mp h
  exact List.mem_map_of_mem (List.mem_of_find?_eq_some hrow)

/-- A constant that an example may be: a text that is not empty, a number or the true value. -/
def Proper : Constant → Prop
  | .string value => value ≠ []
  | .number _ _ => True
  | .truth value => value = true

instance : DecidablePred Proper
  | .string value => inferInstanceAs (Decidable (value ≠ []))
  | .number _ _ => inferInstanceAs (Decidable True)
  | .truth value => inferInstanceAs (Decidable (value = true))

theorem exists_stringExample (column : Text) :
    ∃ value, value ≠ [] ∧ stringExample column = quote value := by
  unfold stringExample
  dsimp only
  split
  · rename_i row hrow
    have hall : ∀ row ∈ stringExamples, row.2 ≠ [] := by decide
    exact ⟨row.2, hall row (List.mem_of_find?_eq_some hrow), rfl⟩
  · exact ⟨_, List.cons_ne_nil _ _, rfl⟩

theorem stringExample_denotes (column : Text) :
    ∃ value, Denotes (stringExample column) value ∧ Proper value := by
  obtain ⟨value, hvalue, heq⟩ := exists_stringExample column
  rw [heq]
  exact ⟨_, string_denotes value, hvalue⟩

theorem integerExample_denotes (column : Text) (now : Moment) :
    ∃ value, Denotes ((numberExample? column integerExamples).getD
      (if occursIn "year" (lower column) then ofNat now.date.year else "1")) value ∧
        Proper value := by
  cases h : numberExample? column integerExamples with
  | none =>
    rw [Option.getD_none]
    split
    · exact ⟨_, ofNat_denotes _, trivial⟩
    · exact ⟨_, whole_denotes rfl, trivial⟩
  | some literal =>
    have hall : ∀ literal ∈ integerExamples.map (·.2), isWhole literal = true := by decide
    exact ⟨_, whole_denotes (hall literal (numberExample?_mem h)), trivial⟩

theorem decimalExample_denotes (column : Text) :
    ∃ value, Denotes ((numberExample? column decimalExamples).getD "1.00") value ∧
      Proper value := by
  cases h : numberExample? column decimalExamples with
  | none => exact ⟨_, decimal_denotes "1" "00" rfl rfl (by decide), trivial⟩
  | some literal =>
    have hmem := numberExample?_mem h
    simp only [decimalExamples, List.map_cons, List.map_nil, List.mem_cons, List.not_mem_nil,
      or_false] at hmem
    rcases hmem with rfl | rfl
    · exact ⟨_, decimal_denotes "99" "99" rfl rfl (by decide), trivial⟩
    · exact ⟨_, decimal_denotes "0" "85" rfl rfl (by decide), trivial⟩

theorem exists_enumExample {values : Option Value} {literal : Text}
    (h : enumExample values = .ok literal) : ∃ value, literal = quote value := by
  unfold enumExample at h
  split at h
  · obtain ⟨value, -, rfl⟩ := Except.map_eq_ok_iff.mp h
    exact ⟨value, rfl⟩
  · cases h
    exact ⟨_, rfl⟩

theorem dateExample_eq_ok {now : Moment} {literal : Text} (h : dateExample now = .ok literal) :
    ∃ t, now.timestamp? = some t ∧ literal = quote t := by
  unfold dateExample at h
  split at h
  · cases h
    exact ⟨_, ‹_›, rfl⟩
  · cases h

/-- Only the first value of an enum can be an empty text. -/
theorem byType_denotes {column dataType literal : Text} {values : Option Value} {now : Moment}
    (h : byType column dataType values now = .ok literal) :
    ∃ value, Denotes literal value ∧ (Proper value ∨ literal = quote []) := by
  unfold byType at h
  split at h
  · cases h
    exact (integerExample_denotes column now).imp fun _ => And.imp_right Or.inl
  · cases h
    exact (decimalExample_denotes column).imp fun _ => And.imp_right Or.inl
  · cases h
    exact ⟨_, truth_denotes true, Or.inl rfl⟩
  · obtain ⟨value, rfl⟩ := exists_enumExample h
    refine ⟨_, string_denotes value, ?_⟩
    by_cases hvalue : value = []
    · exact Or.inr (congrArg quote hvalue)
    · exact Or.inl hvalue
  · obtain ⟨t, ht, rfl⟩ := dateExample_eq_ok h
    obtain ⟨utc, -, rfl⟩ := Option.map_eq_some_iff.mp ht
    exact ⟨_, string_denotes _, Or.inl (List.append_ne_nil_of_right_ne_nil _ (by decide))⟩
  · cases h
    exact ⟨_, string_denotes _, Or.inl (by decide)⟩
  all_goals
    cases h
    exact (stringExample_denotes column).imp fun _ => And.imp_right Or.inl

theorem byName?_denotes {column literal : Text} (h : byName? column = some literal) :
    ∃ value, Denotes literal value ∧ Proper value := by
  unfold byName? at h
  dsimp only at h
  split_ifs at h
  · cases h
    exact ⟨_, string_denotes _, by decide⟩
  · cases h
    exact ⟨_, string_denotes _, by decide⟩
  · cases h
    exact ⟨_, string_denotes _, by decide⟩
  · cases h
    exact ⟨_, whole_denotes rfl, trivial⟩

/-- An example is the literal of a constant that it may be, whichever rule it comes from. -/
theorem exampleValue_denotes {column dataType literal : Text} {values : Option Value}
    {now : Moment} (h : exampleValue column dataType values now = .ok literal) :
    ∃ value, Denotes literal value ∧ Proper value := by
  unfold exampleValue at h
  split at h
  · rename_i found hname
    cases h
    exact byName?_denotes hname
  · obtain ⟨found, hfound, rfl⟩ := Except.map_eq_ok_iff.mp h
    split_ifs with hblank
    · exact stringExample_denotes column
    · obtain ⟨value, hvalue, hproper | rfl⟩ := byType_denotes hfound
      · exact ⟨value, hvalue, hproper⟩
      · exact absurd rfl hblank

end Example

namespace ControllerFile

variable {s : Settings} {now : Moment} {e : Entity} {c : Column} {cls : Option Text}
  {literal : Text}

/-- The documentation of a column with the given class, if it is an enum, and example. -/
def bodyArguments (c : Column) (cls : Option Text) (value : Constant) : List Argument :=
  let mapping := TypeMapping.of c.dataType c.name cls
  [⟨none, .string c.name⟩, ⟨some "description", .string (Example.describe c.name)⟩,
    ⟨some "type", .string mapping.docType⟩] ++
    (mapping.docFormat.map fun format => ⟨some "format", .string format⟩).toList ++
    [⟨some "required", .truth !c.nullable⟩, ⟨some "example", value⟩]

/-- The pieces of the attribute that documents a column. -/
def bodyPieces (c : Column) (cls : Option Text) (literal : Text) : List Text :=
  let mapping := TypeMapping.of c.dataType c.name cls
  [quote c.name, named "description" (quote (Example.describe c.name)),
    named "type" (quote mapping.docType)] ++
    (mapping.docFormat.map fun format => named "format" (quote format)).toList ++
    [named "required" (if !c.nullable then "true" else "false"), named "example" literal]

theorem bodyText_eq (c : Column) (cls : Option Text) (literal : Text) :
    bodyText c cls literal =
      "#[" ++ "BodyParameter" ++ "(" ++ join ", " (bodyPieces c cls literal) ++ ")]" := by
  unfold bodyText bodyPieces
  dsimp only
  generalize TypeMapping.of c.dataType c.name cls = mapping
  obtain ⟨target, docType, format⟩ := mapping
  cases format <;> cases c.nullable <;> rfl

theorem bodyPieces_spell {value : Constant} (h : Denotes literal value) :
    List.Forall₂ (Reader.Spells ')' Reader.argument) (bodyPieces c cls literal)
      (bodyArguments c cls value) := by
  unfold bodyPieces bodyArguments
  refine List.rel_append (List.rel_append ?_ ?_) ?_
  · exact .cons (string_argument_spells _) (.cons ((string_denotes _).spells_named rfl)
      (.cons ((string_denotes _).spells_named rfl) .nil))
  · cases (TypeMapping.of c.dataType c.name cls).docFormat with
    | none => exact .nil
    | some format => exact .cons ((string_denotes format).spells_named rfl) .nil
  · exact .cons ((truth_denotes _).spells_named rfl) (.cons (h.spells_named rfl) .nil)

theorem bodyText_reads_back {value : Constant} (h : Denotes literal value) (rest : Text) :
    readAttribute (bodyText c cls literal ++ rest) =
      some (⟨"BodyParameter", bodyArguments c cls value⟩, rest) := by
  have hsome : bodyPieces c cls literal ≠ [] := List.cons_ne_nil _ _
  rw [bodyText_eq]
  exact readAttribute_append rfl (bodyPieces_spell h) hsome rest

/-- The attribute of a body parameter is there unless the class of an enum cannot be had, and it is
read back as the documentation of its column: the name, the description, the type and its format if
it has one, whether it is required, and the constant that the example is the literal of. -/
theorem bodyParameter_reads_back
    (h : Example.exampleValue c.name c.dataType c.values? now = .ok literal) :
    (∀ m, bodyParameter s now e c = .error m ↔ ClassNames.enumClass? s c e.name = .error m) ∧
      ∀ cls, ClassNames.enumClass? s c e.name = .ok cls →
        ∃ text value, bodyParameter s now e c = .ok text ∧
          Reader.constant.read literal = some (value, []) ∧
          ∀ rest, readAttribute (text ++ rest) =
            some (⟨"BodyParameter", bodyArguments c cls value⟩, rest) := by
  obtain ⟨value, hvalue, -⟩ := Example.exampleValue_denotes h
  unfold bodyParameter
  rw [h]
  constructor
  · intro m
    cases ClassNames.enumClass? s c e.name <;> simp [Except.bind, Except.map]
  · rintro cls hcls
    rw [hcls]
    exact ⟨_, value, rfl, hvalue.alone, fun rest => bodyText_reads_back hvalue rest⟩

/-- A column whose name and first value try to end the strings that they stand in. -/
def quotingColumn : Column where
  name := "o')]\n"
  dataType := "Enum"
  nullable := true
  attributes := [(.text "values", .list [.text "a', required: true)]\\", .text "b"])]

theorem quotingColumn_reads_back :
    ClassNames.enumClass? {} quotingColumn "Post" = .ok (some "App\\Enums\\PostO") ∧
    ∃ text value,
      bodyParameter {} ⟨⟨2025, 1, 2⟩, 3, 4, 5, 6, none⟩ { name := "Post" } quotingColumn =
        .ok text ∧
      Reader.constant.read (quote "a', required: true)]\\") = some (value, []) ∧
      ∀ rest, readAttribute (text ++ rest) =
        some (⟨"BodyParameter", bodyArguments quotingColumn (some "App\\Enums\\PostO") value⟩,
          rest) := by
  have hcls : ClassNames.enumClass? {} quotingColumn "Post" =
      .ok (some "App\\Enums\\PostO") := by
    decide +kernel
  have hliteral : Example.exampleValue quotingColumn.name quotingColumn.dataType
      quotingColumn.values? ⟨⟨2025, 1, 2⟩, 3, 4, 5, 6, none⟩ =
        .ok (quote "a', required: true)]\\") := rfl
  have hreads := bodyParameter_reads_back (s := {}) (e := { name := "Post" }) hliteral
  exact ⟨hcls, hreads.2 _ hcls⟩

example :
    ((bodyParameter {} ⟨⟨2025, 1, 2⟩, 3, 4, 5, 6, none⟩ { name := "Post" } quotingColumn).map
        fun text => readAttribute (text ++ ";")) =
      .ok (some (⟨"BodyParameter",
        [⟨none, .string "o')]\n"⟩, ⟨some "description", .string "The O."⟩,
          ⟨some "type", .string "string"⟩, ⟨some "required", .truth false⟩,
          ⟨some "example", .string "a', required: true)]\\"⟩]⟩, (";" : Text))) := by
  decide +kernel

-- A quote that is not escaped would end the attribute early.
example : readAttribute "#[BodyParameter('o')]')]" =
    some (⟨"BodyParameter", [⟨none, .string "o"⟩]⟩, ("')]" : Text)) := by
  decide +kernel

end ControllerFile

end ApiScaffold
