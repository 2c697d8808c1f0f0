import ApiScaffold.Proofs.AllowedFilters
import ApiScaffold.Proofs.RenderingFailures
import Mathlib.Algebra.GroupWithZero.Nat
import Mathlib.Data.List.DropRight
import Mathlib.Data.List.TakeWhile

/-!
# Examples are literals that are not blank

Of all the rules for examples only the one for enums can come out blank, as the first declared
value may be an empty text, and such an example gives way to the one for strings. So every example
is a string that is not empty, the word for the true value, or a number without a sign. At a moment
whose UTC form the calendar covers there is one for every column, but for an enum whose first value
has a longer integer than can be written.
-/
namespace ApiScaffold

open Text PhpLiteral

namespace Text

theorem occursIn_iff {needle t : Text} : occursIn needle t = true ↔ needle <:+: t := by
  induction t with
  | nil => rw [occursIn, List.isEmpty_iff, List.infix_nil]
  | cons c cs ih =>
    rw [occursIn, Bool.or_eq_true, List.isPrefixOf_iff_prefix, ih, List.infix_cons_iff]

end Text

/-- The numbers that cannot be written begin with a power of ten. -/
theorem Integer.isLong_iff {i : Int} : isLong i = true ↔ 10 ^ Misuse.digitLimit ≤ i.natAbs := by
  have hlength := Nat.length_toDigits_le_iff (n := i.natAbs) (show 1 < 10 by decide)
    (show 0 < Misuse.digitLimit by decide)
  unfold isLong
  rw [decide_eq_true_iff, ofNat, ← Nat.not_le, hlength, Nat.not_lt]

namespace Moment

/-- The instant is in the years 1 to 9999 in UTC. -/
def InCalendar (m : Moment) : Prop :=
  0 ≤ m.instant ∧ m.instant < (Date.calendarDays * microsecondsPerDay : Nat)

theorem exists_timestamp {m : Moment} (h : m.InCalendar) : ∃ t, m.timestamp? = some t := by
  obtain ⟨utc, hutc⟩ : ∃ utc, ofInstant? m.instant = some utc := ⟨_, if_pos h⟩
  exact ⟨_, Option.map_eq_some_iff.mpr ⟨utc, hutc, rfl⟩⟩

end Moment

/-! ## Forms of literals -/

namespace PhpLiteral

/-- Digits without a zero in front, with or without a point and places behind it. -/
def IsDecimal (literal : Text) : Prop :=
  isWhole literal = true ∨ ∃ whole places, isWhole whole = true ∧ places ≠ [] ∧
    (∀ c ∈ places, isAsciiDigit c = true) ∧ literal = whole ++ '.' :: places

namespace Reader

variable {t rest : Text} {value : Constant}

theorem constant_read_cases (h : constant.read t = some (value, rest)) :
    (∃ v, value = .string v ∧ string.read t = some (v, rest)) ∨
      number.read t = some (value, rest) ∨ truth.read t = some (value, rest) := by
  rcases Option.or_eq_some_iff.mp h with h | ⟨-, h⟩
  · obtain ⟨⟨v, rest'⟩, hread, heq⟩ := Option.map_eq_some_iff.mp h
    cases heq
    exact Or.inl ⟨v, rfl, hread⟩
  · rcases Option.or_eq_some_iff.mp h with h | ⟨-, h⟩
    · exact Or.inr (Or.inl h)
    · exact Or.inr (Or.inr h)

theorem number_read_alone (h : number.read t = some (value, [])) :
    (∃ units places, value = .number units places) ∧ IsDecimal t := by
  have hsplit := List.takeWhile_append_dropWhile (p := isAsciiDigit) (l := t)
  simp only [number] at h
  split_ifs at h with hwhole
  split at h
  · rename_i behind hbehind
    split_ifs at h with hplaces
    obtain ⟨rfl, hend⟩ := Prod.mk.inj (Option.some.inj h)
    have hdigits := List.dropWhile_eq_nil_iff.mp hend
    have hall : behind.takeWhile isAsciiDigit = behind := List.takeWhile_eq_self_iff.mpr hdigits
    rw [hall] at hplaces
    rw [hbehind] at hsplit
    exact ⟨⟨_, _, rfl⟩, Or.inr ⟨_, behind, hwhole, hplaces, hdigits, hsplit.symm⟩⟩
  · obtain ⟨rfl, hend⟩ := Prod.mk.inj (Option.some.inj h)
    rw [hend, List.append_nil] at hsplit
    rw [hsplit] at hwhole
    exact ⟨⟨_, _, rfl⟩, Or.inl hwhole⟩

theorem truth_read_alone (h : truth.read t = some (value, [])) :
    ∃ b, value = .truth b ∧ t = (if b then "true" else "false" : Text) := by
  have hsplit := List.takeWhile_append_dropWhile (p := isIdentifierChar) (l := t)
  simp only [truth] at h
  split_ifs at h with htrue hfalse
  · obtain ⟨rfl, hend⟩ := Prod.mk.inj (Option.some.inj h)
    rw [hend, List.append_nil, htrue] at hsplit
    exact ⟨true, rfl, hsplit.symm⟩
  · obtain ⟨rfl, hend⟩ := Prod.mk.inj (Option.some.inj h)
    rw [hend, List.append_nil, hfalse] at hsplit
    exact ⟨false, rfl, hsplit.symm⟩

theorem string_read_quote (value : Text) : string.read (quote value) = some (value, []) := by
  simpa using string_quote value []

end Reader

end PhpLiteral

namespace Example

variable {column dataType literal : Text} {values : Option Value} {now : Moment}

/-! ## Forms of examples -/

theorem form_of_proper {value : Constant} (h : Reader.constant.read literal = some (value, []))
    (hvalue : Proper value) :
    (∃ v, v ≠ [] ∧ Reader.string.read literal = some (v, [])) ∨ literal = "true" ∨
      IsDecimal literal := by
  rcases Reader.constant_read_cases h with ⟨v, rfl, hread⟩ | hread | hread
  · exact Or.inl ⟨v, hvalue, hread⟩
  · exact Or.inr (Or.inr (Reader.number_read_alone hread).2)
  · obtain ⟨b, rfl, hword⟩ := Reader.truth_read_alone hread
    obtain rfl : b = true := hvalue
    exact Or.inr (Or.inl hword)

/-! ## Blank examples -/

theorem trim_quote (value : Text) : trim (quote value) = quote value := by
  have hquote : ¬isBlank '\'' = true := by decide
  calc trim (quote value)
      = stripRight isBlank (quote value) :=
        congrArg (stripRight isBlank) (List.dropWhile_cons_of_neg hquote)
    _ = quote value := List.rdropWhile_concat_neg isBlank ('\'' :: escape value) '\'' hquote

/-- A quoted text is only blank when it is empty. -/
theorem isBlankLiteral_quote {value : Text} (h : value ≠ []) :
    isBlankLiteral (quote value) = false := by
  have hread := Reader.string_read_quote value
  unfold isBlankLiteral
  simp only [trim_quote, Bool.or_eq_false_iff, decide_eq_false_iff_not]
  refine ⟨⟨?_, ?_⟩, ?_⟩
  all_goals
    intro hblank
    rw [hblank] at hread
    cases hread
  exact h rfl

theorem isBlankLiteral_of_byName? (h : byName? column = some literal) :
    isBlankLiteral literal = false := by
  unfold byName? at h
  dsimp only at h
  split_ifs at h
  · cases h
    exact isBlankLiteral_quote (by decide)
  · cases h
    exact isBlankLiteral_quote (by decide)
  · cases h
    exact isBlankLiteral_quote (by decide)
  · cases h
    rfl

theorem isBlankLiteral_of_exampleValue (h : exampleValue column dataType values now = .ok literal) :
    isBlankLiteral literal = false := by
  unfold exampleValue at h
  split at h
  · rename_i found hname
    cases h
    exact isBlankLiteral_of_byName? hname
  · obtain ⟨found, -, rfl⟩ := Except.map_eq_ok_iff.mp h
    split_ifs with hblank
    · obtain ⟨value, hvalue, heq⟩ := exists_stringExample column
      rw [heq]
      exact isBlankLiteral_quote hvalue
    · exact Bool.eq_false_iff.mpr hblank

/-! ## Examples by type -/

/-- No rule for names takes a column of this name. -/
structure Unnamed (column : Text) : Prop where
  email : lower column ≠ ("email" : Text)
  password : lower column ≠ ("password" : Text)
  url : ¬("url" : Text) <:+: lower column
  key : ¬("_id" : Text) <:+ lower column

theorem byName?_eq_none_iff : byName? column = none ↔ Unnamed column := by
  have hurl : occursIn "url" (lower column) = true ↔ ("url" : Text) <:+: lower column :=
    occursIn_iff
  have hkey : endsWith "_id" (lower column) = true ↔ ("_id" : Text) <:+ lower column :=
    List.isSuffixOf_iff_suffix
  unfold byName?
  dsimp only
  constructor
  · intro h
    split_ifs at h with hemail hpassword hfound hid
    exact ⟨hemail, hpassword, fun hin => hfound (hurl.mpr hin), fun hend => hid (hkey.mpr hend)⟩
  · intro h
    rw [if_neg h.email, if_neg h.password, if_neg fun hin => h.url (hurl.mp hin),
      if_neg fun hend => h.key (hkey.mp hend)]

theorem isEnumType_iff : isEnumType dataType = true ↔ lower dataType = ("enum" : Text) := by
  unfold isEnumType
  rw [beq_iff_eq, TypeFamily.of?_eq_some_iff]
  exact List.mem_singleton

/-- The values of an enum begin with the value. -/
inductive BeginsWith (first : Value) : Value → Prop
  | list (rest : List Value) : BeginsWith first (.list (first :: rest))
  | tuple (rest : List Value) : BeginsWith first (.tuple (first :: rest))

theorem firstValue?_eq_some_iff {first : Value} :
    firstValue? values = some first ↔ ∃ v, values = some v ∧ BeginsWith first v := by
  unfold firstValue?
  constructor
  · intro h
    obtain ⟨items, hitems, hfirst⟩ := Option.bind_eq_some_iff.mp h
    obtain ⟨v, rfl, hv⟩ := Option.bind_eq_some_iff.mp hitems
    obtain ⟨rest, rfl⟩ : ∃ rest, items = first :: rest := by
      cases items with
      | nil => cases hfirst
      | cons other rest => exact ⟨rest, by rw [Option.some.inj hfirst]⟩
    cases v with
    | list items => cases hv; exact ⟨_, rfl, .list rest⟩
    | tuple items => cases hv; exact ⟨_, rfl, .tuple rest⟩
    | _ => cases hv
  · rintro ⟨v, rfl, hv⟩
    cases hv <;> rfl

/-- An enum column that no rule for names takes and whose first value cannot be written. -/
def Unwritable (column dataType : Text) (values : Option Value) : Prop :=
  Unnamed column ∧ lower dataType = ("enum" : Text) ∧
    ∃ v first, values = some v ∧ BeginsWith first v ∧ first.hasLong = true

/-- When the calendar covers the moment, only a value that cannot be written has no example. -/
theorem exampleValue_eq_error_iff_unwritable (hnow : now.InCalendar) {m : Misuse} :
    exampleValue column dataType values now = .error m ↔
      m = .tooLongToWrite ∧ Unwritable column dataType values := by
  obtain ⟨t, ht⟩ := Moment.exists_timestamp hnow
  rw [exampleValue_eq_error_iff, byName?_eq_none_iff, isEnumType_iff, ht]
  unfold Unwritable
  simp only [firstValue?_eq_some_iff, reduceCtorEq, and_false, false_or]
  constructor
  · rintro ⟨hname, htype, hm, first, ⟨v, hv, hfirst⟩, hlong⟩
    exact ⟨hm, hname, htype, v, first, hv, hfirst, hlong⟩
  · rintro ⟨hm, hname, htype, v, first, hv, hfirst, hlong⟩
    exact ⟨hname, htype, hm, first, ⟨v, hv, hfirst⟩, hlong⟩

/-- An enum that no rule for names takes has its first value for an example. -/
theorem exampleValue_enum {first v : Value} (htype : lower dataType = ("enum" : Text))
    (hname : Unnamed column) (hv : BeginsWith first v) (hfirst : first.display ≠ [])
    (h : exampleValue column dataType (some v) now = .ok literal) :
    literal = quote first.display := by
  have hfamily : TypeFamily.of? dataType = some .enumeration :=
    TypeFamily.of?_eq_some_iff.mpr (List.mem_singleton.mpr htype)
  have hvalue : firstValue? (some v) = some first := firstValue?_eq_some_iff.mpr ⟨v, rfl, hv⟩
  unfold exampleValue byType at h
  rw [byName?_eq_none_iff.mpr hname, hfamily] at h
  simp only [enumExample, hvalue, Except.map_eq_ok_iff, Value.written_eq_ok_iff] at h
  obtain ⟨_, ⟨_, ⟨-, rfl⟩, rfl⟩, rfl⟩ := h
  rw [isBlankLiteral_quote hfirst]
  rfl

/-- At a moment that the calendar covers, a column has an example unless it is an enum that no rule
for names takes and whose first value cannot be written. An example is a string in single quotes
that is not empty, the word for the true value or a decimal number. An enum that no rule for names
takes has its first value for an example, read back as it was, unless it is an empty text. -/
theorem example_wellFormed (hnow : now.InCalendar) (column dataType : Text)
    (attributes : Mapping) :
    (∀ m, exampleValue column dataType (attributes.getText? "values") now = .error m ↔
        m = .tooLongToWrite ∧ Unwritable column dataType (attributes.getText? "values")) ∧
      (¬Unwritable column dataType (attributes.getText? "values") →
        ∃ literal, exampleValue column dataType (attributes.getText? "values") now = .ok literal) ∧
      ∀ literal, exampleValue column dataType (attributes.getText? "values") now = .ok literal →
        isBlankLiteral literal = false ∧
        ((∃ value, value ≠ [] ∧ Reader.string.read literal = some (value, [])) ∨
          literal = "true" ∨ IsDecimal literal) ∧
        (lower dataType = ("enum" : Text) → Unnamed column → ∀ v first,
          attributes.getText? "values" = some v → BeginsWith first v → first.display ≠ [] →
            Reader.string.read literal = some (first.display, [])) := by
  have herror : ∀ m, exampleValue column dataType (attributes.getText? "values") now = .error m ↔
      m = .tooLongToWrite ∧ Unwritable column dataType (attributes.getText? "values") :=
    fun m => exampleValue_eq_error_iff_unwritable hnow
  refine ⟨herror, fun hwritable => ?_, fun literal hliteral => ?_⟩
  · cases hexample : exampleValue column dataType (attributes.getText? "values") now with
    | ok literal => exact ⟨literal, rfl⟩
    | error m => exact absurd ((herror m).mp hexample).2 hwritable
  · obtain ⟨value, hdenotes, hproper⟩ := exampleValue_denotes hliteral
    refine ⟨isBlankLiteral_of_exampleValue hliteral, form_of_proper hdenotes.alone hproper, ?_⟩
    intro htype hname v first hv hbegins hfirst
    rw [hv] at hliteral
    rw [exampleValue_enum htype hname hbegins hfirst hliteral]
    exact Reader.string_read_quote first.display

def morningOfJanuary : Moment := ⟨⟨2025, 1, 2⟩, 3, 4, 5, 678901, some (-36000000000)⟩

/-- An enum whose first value has a quote in it. -/
theorem quotedValue_example : morningOfJanuary.InCalendar ∧
    ∃ literal, exampleValue "status" "Enum" (some (.list [.text "won't", .text "do"]))
        morningOfJanuary = .ok literal ∧
      Reader.string.read literal = some (("won't" : Text), []) := by
  have hnow : morningOfJanuary.InCalendar := by
    unfold Moment.InCalendar
    decide
  have hname : Unnamed "status" :=
    ⟨by decide, by decide, by decide +kernel, by decide⟩
  obtain ⟨-, hexists, hforms⟩ := example_wellFormed hnow "status" "Enum"
    [(.text "values", .list [.text "won't", .text "do"])]
  have hwritable : ¬Unwritable "status" "Enum"
      (some (.list [.text "won't", .text "do"])) := by
    rintro ⟨-, -, v, first, hv, hfirst, hlong⟩
    cases hv
    cases hfirst
    cases hlong
  obtain ⟨literal, hliteral⟩ := hexists hwritable
  obtain ⟨-, -, henum⟩ := hforms literal hliteral
  exact ⟨hnow, literal, hliteral, henum (by decide) hname _ _ rfl (.list _) (by decide)⟩

/-- A whole number of more digits than can be written. -/
def longNumber : Int := ((16 ^ 36) ^ 100 : Nat)

theorem isLong_longNumber : Integer.isLong longNumber = true := by
  have hdigits : Misuse.digitLimit = 43 * 100 := rfl
  have hpower : 10 ^ (43 * 100) ≤ (16 ^ 36) ^ 100 := by
    simp only [Nat.pow_mul]
    exact Nat.pow_le_pow_left (by decide) 100
  rw [Integer.isLong_iff, hdigits]
  exact hpower

/-- An enum of such a number has no example, although no rule for names takes its column. -/
theorem longNumber_no_example : morningOfJanuary.InCalendar ∧ Unnamed "status" ∧
    ∀ literal, exampleValue "status" "enum"
      (Mapping.getText? "values" [(.text "values", .list [.int longNumber])]) morningOfJanuary ≠
        .ok literal := by
  have hnow : morningOfJanuary.InCalendar := by
    unfold Moment.InCalendar
    decide
  have hname : Unnamed "status" :=
    ⟨by decide, by decide, by decide +kernel, by decide⟩
  have herror : exampleValue "status" "enum" (some (.list [.int longNumber])) morningOfJanuary =
      .error .tooLongToWrite :=
    (exampleValue_eq_error_iff_unwritable hnow).mpr
      ⟨rfl, hname, by decide, _, _, rfl, .list [], isLong_longNumber⟩
  refine ⟨hnow, hname, fun literal hliteral => ?_⟩
  rw [show Mapping.getText? "values" [(.text "values", .list [.int longNumber])] =
    some (.list [.int longNumber]) from rfl, herror] at hliteral
  cases hliteral

end Example

end ApiScaffold
