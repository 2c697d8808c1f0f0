import ApiScaffold.Draft.Column
import ApiScaffold.Proofs.NameCharacters

/-!
# Arguments that are numbers

An argument that is made of digits alone is read as a number. Not every digit has a place in a
decimal number, though: superscripts and the like count as digits and still cannot be read, and
neither can a number of too many digits. All other arguments stay texts.
-/
namespace ApiScaffold

namespace Text

theorem decimalValue?_lt {c : Char} {v : Nat} (h : decimalValue? c = some v) : v < 10 := by
  unfold decimalValue? at h
  split_ifs at h with hwide hdigit
  · cases h
    simp only [isAsciiDigit, Bool.and_eq_true, decide_eq_true_eq, Char.le_def,
      UInt32.le_iff_toNat_le] at hdigit
    have hle : c.toNat ≤ 57 := hdigit.2
    omega
  · obtain ⟨z, hz, rfl⟩ := Option.map_eq_some_iff.mp h
    have hrange := List.find?_some hz
    simp only [Bool.and_eq_true, decide_eq_true_eq] at hrange
    omega

/-- The code points of all blanks. -/
def blankPoints : List Nat :=
  [9, 10, 11, 12, 13, 28, 29, 30, 31, 32, 0x85, 0xA0, 0x1680, 0x2000, 0x2001, 0x2002, 0x2003,
   0x2004, 0x2005, 0x2006, 0x2007, 0x2008, 0x2009, 0x200A, 0x2028, 0x2029, 0x202F, 0x205F, 0x3000]

theorem mem_blankPoints {c : Char} (h : isBlank c = true) : c.toNat ∈ blankPoints := by
  simp only [isBlank, Bool.or_eq_true, Bool.and_eq_true, decide_eq_true_eq, beq_iff_eq] at h
  simp only [blankPoints, List.mem_cons, List.not_mem_nil, or_false]
  omega

/-- No blank counts as a digit. -/
theorem isBlank_of_isDigitLike {c : Char} (h : isDigitLike c = true) : isBlank c = false := by
  have hall : ∀ n ∈ blankPoints, isDigitLike (Char.ofNat n) = false := by decide
  rw [← Bool.not_eq_true]
  intro hblank
  have hno := hall c.toNat (mem_blankPoints hblank)
  rw [Char.ofNat_toNat, h] at hno
  cases hno

theorem trim_eq_self {t : Text} (h : ∀ c ∈ t, isBlank c = false) : trim t = t := by
  have hleft {s : Text} (hs : ∀ c ∈ s, isBlank c = false) : s.dropWhile isBlank = s := by
    cases s with
    | nil => rfl
    | cons c rest => exact List.dropWhile_cons_of_neg (by simp [hs c List.mem_cons_self])
  unfold trim strip stripRight stripLeft
  rw [hleft h, hleft fun c hc => h c (List.mem_reverse.mp hc), List.reverse_reverse]

end Text

open Text

namespace Integer

theorem lowerAscii_toNat_of_letter {c : Char} (h : isAsciiLetter c = true) :
    97 ≤ (lowerAscii c).toNat := by
  unfold lowerAscii
  split_ifs with hupper
  · have hn := (isAsciiUpper_iff c).mp hupper
    rw [toNat_ofNat (by omega)]
    omega
  · rw [isAsciiLetter, Bool.or_eq_true] at h
    exact ((isAsciiLower_iff c).mp (h.resolve_left hupper)).1

/-- In base ten the letters are no digits. -/
theorem digitValue?_isSome (c : Char) :
    (digitValue? 10 c).isSome = (decimalValue? c).isSome := by
  unfold digitValue?
  cases hv : decimalValue? c with
  | some v => simp [Option.filter, decimalValue?_lt hv]
  | none =>
    simp only
    split_ifs with hletter
    · have hlow := lowerAscii_toNat_of_letter hletter
      simp only [Option.filter, decide_eq_true_eq]
      rw [if_neg (by omega)]
    · rfl

theorem leadingDigits_length_le (base : Nat) (t : Text) :
    (leadingDigits base t).length ≤ t.length := by
  induction t with
  | nil => exact Nat.le_refl _
  | cons c rest ih =>
    unfold leadingDigits
    split
    · simpa using ih
    · exact Nat.zero_le _

/-- All characters of a text are leading digits when each of them is a digit. -/
theorem leadingDigits_length_eq_iff (base : Nat) (t : Text) :
    (leadingDigits base t).length = t.length ↔ ∀ c ∈ t, (digitValue? base c).isSome = true := by
  induction t with
  | nil => simp [leadingDigits]
  | cons c rest ih =>
    unfold leadingDigits
    cases hv : digitValue? base c with
    | some v => simp [hv, ih]
    | none => simp [hv]

/-- A text of digits without a sign or blanks is an integer exactly when all digits are decimal
and not too many. -/
theorem ofText_ok_iff {t : Text} (hne : t ≠ []) (hdigits : ∀ c ∈ t, isDigitLike c = true) :
    (∃ i, ofText 10 t = .ok i) ↔
      (∀ c ∈ t, (decimalValue? c).isSome = true) ∧ t.length ≤ Misuse.digitLimit := by
  have htrim : trim t = t := trim_eq_self fun c hc => isBlank_of_isDigitLike (hdigits c hc)
  have hsign : ∀ c ∈ t, c ≠ '-' ∧ c ≠ '+' := by
    intro c hc
    constructor <;> (rintro rfl; exact absurd (hdigits _ hc) (by decide))
  have hall := leadingDigits_length_eq_iff 10 t
  simp only [digitValue?_isSome] at hall
  have hle := leadingDigits_length_le 10 t
  have hmark : dropMark 10 t = t := by
    unfold dropMark
    split
    · rename_i c rest
      rw [if_neg (by simp [baseLetter])]
    · rfl
  unfold ofText
  simp only [htrim]
  split
  · rename_i rest
    exact absurd rfl (hsign '-' List.mem_cons_self).1
  · rename_i rest
    exact absurd rfl (hsign '+' List.mem_cons_self).2
  · simp only [hmark, true_and, Bool.false_eq_true, if_false]
    rw [← hall]
    have hpos := List.length_pos_of_ne_nil hne
    split_ifs with hlong hshort
    · refine iff_of_false (fun ⟨i, hi⟩ => by cases hi) fun h => ?_
      omega
    · refine iff_of_false (fun ⟨i, hi⟩ => by cases hi) fun h => ?_
      rcases hshort with hnil | hlt
      · rw [hnil, List.length_nil] at h
        omega
      · omega
    · rw [not_or] at hshort
      exact iff_of_true ⟨_, rfl⟩ ⟨by omega, by omega⟩

end Integer

namespace Draft

/-- A text of digits alone has decimal digits only, and not too many of them. -/
def ReadableNumber (t : Text) : Prop :=
  (∀ c ∈ t, isDigitLike c = true) →
    (∀ c ∈ t, (decimalValue? c).isSome = true) ∧ t.length ≤ Misuse.digitLimit

-- By `all`, which goes through the characters of the text and not through all characters.
instance (t : Text) : Decidable (ReadableNumber t) :=
  decidable_of_iff (t.all isDigitLike = true →
      t.all (fun c => (decimalValue? c).isSome) = true ∧ t.length ≤ Misuse.digitLimit)
    (by simp only [ReadableNumber, List.all_eq_true])

theorem numberOrText_ok_iff (t : Text) : (∃ v, numberOrText t = .ok v) ↔ ReadableNumber t := by
  unfold numberOrText ReadableNumber
  split_ifs with hnumber
  · have hdigits : ∀ c ∈ t, isDigitLike c = true := List.all_eq_true.mp hnumber.2
    have hread := Integer.ofText_ok_iff hnumber.1 hdigits
    rw [forall_prop_of_true hdigits, ← hread]
    cases Integer.ofText 10 t <;> simp [Except.map]
  · refine iff_of_true ⟨_, rfl⟩ fun hdigits => ?_
    have hnil : t = [] := by
      by_contra hne
      exact hnumber ⟨hne, List.all_eq_true.mpr hdigits⟩
    simp [hnil]

end Draft

end ApiScaffold
