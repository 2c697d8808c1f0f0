import ApiScaffold.Proofs.FirstCharacters

/-!
# How many letters a name keeps

Up to case, a capitalised name consists of the letters and digits of the name that it is made
from. So its length is their number, and the singular of a name loses or gains a few letters at
most. Both bounds are generous; they are only to tell names with long endings from names without.
-/
namespace ApiScaffold

namespace Text

theorem lowerAscii_of_not_isAsciiUpper {c : Char} (h : ¬isAsciiUpper c = true) :
    lowerAscii c = c := by
  rw [lowerAscii, if_neg h]

theorem lowerAscii_lowerAscii (c : Char) : lowerAscii (lowerAscii c) = lowerAscii c := by
  by_cases hc : isAsciiUpper c = true
  · refine lowerAscii_of_not_isAsciiUpper ?_
    have hn := (isAsciiUpper_iff c).mp hc
    rw [lowerAscii, if_pos hc, isAsciiUpper_iff, toNat_ofNat (by omega)]
    omega
  · rw [lowerAscii_of_not_isAsciiUpper hc, lowerAscii_of_not_isAsciiUpper hc]

theorem lowerAscii_upperAscii (c : Char) : lowerAscii (upperAscii c) = lowerAscii c := by
  by_cases hc : isAsciiLower c = true
  · have hn := (isAsciiLower_iff c).mp hc
    have hupper : isAsciiUpper (Char.ofNat (c.toNat - 32)) = true := by
      rw [isAsciiUpper_iff, toNat_ofNat (by omega)]
      omega
    have hkept : ¬isAsciiUpper c = true := by
      rw [isAsciiUpper_iff]
      omega
    have hback : c.toNat - 32 + 32 = c.toNat := by omega
    rw [upperAscii, if_pos hc, lowerAscii, if_pos hupper, lowerAscii_of_not_isAsciiUpper hkept,
      toNat_ofNat (by omega), hback, Char.ofNat_toNat]
  · rw [upperAscii, if_neg hc]

theorem length_le_lower (t : Text) : t.length ≤ (lower t).length := by
  induction t with
  | nil => exact Nat.le_refl 0
  | cons c rest ih =>
    have hc : 1 ≤ (lowerChar c).length := by
      rcases lowerChar_cases c with ⟨d, hd⟩ | hlong
      · rw [hd]
        exact Nat.le_refl 1
      · rw [hlong]
        exact Nat.le_succ 1
    rw [lower, List.flatMap_cons, ← lower, List.length_append, List.length_cons]
    omega

end Text

open Text

namespace Words

/-- The number of letters and digits of ASCII. -/
def letters (name : Text) : Nat := name.countP isAsciiAlnum

theorem letters_append (a b : Text) : letters (a ++ b) = letters a + letters b :=
  List.countP_append

theorem letters_le_length (name : Text) : letters name ≤ name.length :=
  List.countP_le_length

theorem letters_eq_length {name : Text} (h : ∀ c ∈ name, isAsciiAlnum c = true) :
    letters name = name.length :=
  List.countP_eq_length.mpr h

/-- The words of a name are its letters and digits, cut into pieces. -/
theorem words_flatten (name : Text) :
    (words name).flatten = (name.filter isAsciiAlnum).map lowerAscii := by
  induction name with
  | nil => rfl
  | cons c cs ih =>
    rcases words_cons c cs with ⟨hc, h⟩ | ⟨hc, h⟩ | ⟨hc, -, -, word, more, -, -, hcs, h⟩
    · rw [h, List.filter_cons_of_neg (by simp [hc]), ih]
    · rw [h, List.filter_cons_of_pos hc, List.map_cons, ← ih]
      rfl
    · rw [h, List.filter_cons_of_pos hc, List.map_cons, ← ih, hcs]
      rfl

theorem lower_capitalize (word : Text) :
    (capitalize word).map lowerAscii = word.map lowerAscii := by
  cases word with
  | nil => rfl
  | cons c rest =>
    rw [capitalize, List.map_cons, List.map_cons, lowerAscii_upperAscii]

/-- Capitals apart, a capitalised name is made of the letters and digits of the name. -/
theorem lower_studly (name : Text) :
    (studly name).map lowerAscii = (name.filter isAsciiAlnum).map lowerAscii := by
  have hwords : (studly name).map lowerAscii = (words name).flatten.map lowerAscii := by
    simp only [studly, List.map_flatten, List.map_map, Function.comp_def, lower_capitalize]
  have htwice : lowerAscii ∘ lowerAscii = lowerAscii := funext lowerAscii_lowerAscii
  rw [hwords, words_flatten, List.map_map, htwice]

theorem length_studly (name : Text) : (studly name).length = letters name := by
  have hlength := congrArg List.length (lower_studly name)
  rwa [List.length_map, List.length_map, ← List.countP_eq_length_filter] at hlength

/-- Capitalising again changes no length. -/
theorem length_studly_studly (name : Text) :
    (studly (studly name)).length = (studly name).length := by
  rw [length_studly, letters_eq_length (studly_alnum name)]

end Words

namespace Inflection

open Words

theorem letters_dropEnd (n : Nat) (name : Text) :
    letters (dropEnd n name) ≤ letters name ∧ letters name ≤ letters (dropEnd n name) + n := by
  have hsplit : letters name =
      letters (dropEnd n name) + letters (name.drop (name.length - n)) := by
    rw [← letters_append, dropEnd, List.take_append_drop]
  have hdropped := letters_le_length (name.drop (name.length - n))
  rw [List.length_drop] at hdropped
  omega

theorem length_matchCase (source word : Text) : (matchCase source word).length = word.length := by
  unfold matchCase
  split
  · split_ifs <;> rfl
  · rfl

theorem matchCase_alnum (source : Text) {word : Text} (h : word.all isAsciiLower = true) :
    ∀ c ∈ matchCase source word, isAsciiAlnum c = true := by
  have hword : ∀ c ∈ word, isAsciiAlnum c = true := by
    intro c hc
    rw [isAsciiAlnum_iff]
    exact Or.inl (Or.inr (List.all_eq_true.mp h c hc))
  unfold matchCase
  split
  · split_ifs
    · obtain ⟨hw, hrest⟩ := List.forall_mem_cons.mp hword
      exact List.forall_mem_cons.mpr ⟨upperAscii_alnum hw, hrest⟩
    · exact hword
  · exact hword

theorem letters_matchCase (source : Text) {word : Text} (h : word.all isAsciiLower = true) :
    letters (matchCase source word) = word.length := by
  rw [letters_eq_length (matchCase_alnum source h), length_matchCase]

theorem irregularNouns_lengths :
    ∀ pair ∈ irregularNouns, pair.1.length ≤ 8 ∧ pair.2.length ≤ pair.1.length + 3 := by
  decide

/-- The singular of a name has about as many letters as the name. -/
theorem letters_singular (name : Text) :
    letters (singular name) ≤ letters name + 8 ∧ letters name ≤ letters (singular name) + 3 := by
  by_cases hname : name = []
  · rw [hname]
    decide
  rcases singular_cases hname with ⟨pair, hpair, hword, hsingular⟩ | hsingular
  · have hlengths := irregularNouns_lengths pair hpair
    have hlower := length_le_lower name
    have hletters := letters_le_length name
    rw [hsingular, letters_matchCase name (irregularNouns_lower pair hpair).1]
    rw [← hword] at hlower
    omega
  · rw [hsingular]
    split_ifs
    · omega
    unfold regularSingular
    have hy : letters "y" = 1 := by decide
    have hf : letters "f" = 1 := by decide
    have hdrop := fun n => letters_dropEnd n name
    split_ifs
    · have h := hdrop 3
      rw [letters_append, hy]
      omega
    · have h := hdrop 3
      rw [letters_append, hf]
      omega
    · have h := hdrop 2
      omega
    · have h := hdrop 1
      omega
    · omega

end Inflection

/-- The form of a name that entities are looked up by has about as many letters as the name. -/
theorem length_entityForm (name : Text) :
    (entityForm name).length ≤ Words.letters name + 8 ∧
      Words.letters name ≤ (entityForm name).length + 3 := by
  unfold entityForm
  rw [Words.length_studly]
  exact Inflection.letters_singular name

end ApiScaffold
