import ApiScaffold.Inflection
import ApiScaffold.Proofs.NameCharacters
import Mathlib.Data.List.Induction

/-!
# First characters of generated names

A name in a generated file begins with the first letter or digit of the name that it is made from,
wherever that stands. So a class or a variable is an identifier unless that character is a digit
or, for a variable, there is none. Plural and singular change the end of a name and leave its
first letter or digit alone, unless they cut it away.
-/
namespace ApiScaffold

open Text

namespace Text

theorem isAsciiDigit_iff (c : Char) : isAsciiDigit c = true ↔ 48 ≤ c.toNat ∧ c.toNat ≤ 57 := by
  simp only [isAsciiDigit, Bool.and_eq_true, decide_eq_true_eq, Char.le_def,
    UInt32.le_iff_toNat_le]
  rfl

/-- Digits have no case. -/
theorem isAsciiDigit_lowerAscii (c : Char) : isAsciiDigit (lowerAscii c) = isAsciiDigit c := by
  unfold lowerAscii
  split_ifs with hc
  · have hn := (isAsciiUpper_iff c).mp hc
    rw [Bool.eq_iff_iff, isAsciiDigit_iff, isAsciiDigit_iff, toNat_ofNat (by omega)]
    omega
  · rfl

theorem isAsciiDigit_upperAscii (c : Char) : isAsciiDigit (upperAscii c) = isAsciiDigit c := by
  unfold upperAscii
  split_ifs with hc
  · have hn := (isAsciiLower_iff c).mp hc
    rw [Bool.eq_iff_iff, isAsciiDigit_iff, isAsciiDigit_iff, toNat_ofNat (by omega)]
    omega
  · rfl

theorem isAsciiDigit_of_isAsciiLetter {c : Char} (h : isAsciiLetter c = true) :
    isAsciiDigit c = false := by
  by_contra hdigit
  have hn := (isAsciiDigit_iff c).mp (by simpa using hdigit)
  rw [isAsciiLetter, Bool.or_eq_true, isAsciiUpper_iff, isAsciiLower_iff] at h
  omega

theorem isAsciiDigit_of_isAsciiLower {c : Char} (h : isAsciiLower c = true) :
    isAsciiDigit c = false :=
  isAsciiDigit_of_isAsciiLetter (by rw [isAsciiLetter, h, Bool.or_true])

theorem lowerChar_of_isAsciiDigit {c : Char} (h : isAsciiDigit c = true) : lowerChar c = [c] := by
  have hn := (isAsciiDigit_iff c).mp h
  have hupper : ¬isAsciiUpper c = true := by
    rw [isAsciiUpper_iff]
    omega
  rw [lowerChar, if_pos (by omega), lowerAscii, if_neg hupper]

/-- A lower-cased text that ends in a small letter comes from a text that does not end in a digit
and has the rest of the lower case before its last character. -/
theorem lower_concat {front rest : Text} {c e : Char} (he : isAsciiLower e = true)
    (h : front ++ [e] = lower (rest ++ [c])) : front = lower rest ∧ isAsciiDigit c = false := by
  rw [lower, List.flatMap_append, List.flatMap_singleton, ← lower] at h
  -- The one character with two for its lower case ends in a mark, which is no letter.
  rcases lowerChar_cases c with ⟨d, hd⟩ | hlong
  · rw [hd] at h
    obtain ⟨hfront, heq⟩ := List.append_inj' h rfl
    cases heq
    refine ⟨hfront, ?_⟩
    by_contra hdigit
    rw [Bool.not_eq_false] at hdigit
    rw [lowerChar_of_isAsciiDigit hdigit] at hd
    cases hd
    rw [isAsciiDigit_of_isAsciiLower he] at hdigit
    cases hdigit
  · have hsplit : lowerChar c = ['i'] ++ [Char.ofNat 0x307] := hlong
    rw [hsplit, ← List.append_assoc] at h
    obtain ⟨-, heq⟩ := List.append_inj' h rfl
    cases heq
    cases he

end Text

theorem isIdentifierStart_of_isAsciiAlnum {c : Char} (h : isAsciiAlnum c = true) :
    isIdentifierStart c = !isAsciiDigit c := by
  rcases Bool.or_eq_true_iff.mp h with hletter | hdigit
  · simp [isIdentifierStart, hletter, isAsciiDigit_of_isAsciiLetter hletter]
  · have hunderscore : c ≠ '_' := by
      rintro rfl
      cases hdigit
    have hletter : isAsciiLetter c = false := by
      by_contra hletter
      rw [Bool.not_eq_false] at hletter
      rw [isAsciiDigit_of_isAsciiLetter hletter] at hdigit
      cases hdigit
    simp [isIdentifierStart, hletter, hdigit, hunderscore]

namespace Words

/-- Whether the first letter or digit of a name is a digit. -/
def beginsWithDigit (name : Text) : Bool := (name.find? isAsciiAlnum).any isAsciiDigit

theorem words_of_find?_none {name : Text} (h : name.find? isAsciiAlnum = none) :
    words name = [] := by
  induction name with
  | nil => rfl
  | cons c cs ih =>
    obtain ⟨hc, hcs⟩ := List.forall_mem_cons.mp (List.find?_eq_none.mp h)
    rw [words_skip (Bool.eq_false_iff.mpr hc), ih (List.find?_eq_none.mpr hcs)]

/-- The first word begins with the first letter or digit. -/
theorem words_of_find?_some {name : Text} {c : Char} (h : name.find? isAsciiAlnum = some c) :
    ∃ rest more, words name = (lowerAscii c :: rest) :: more := by
  induction name with
  | nil => cases h
  | cons d cs ih =>
    rcases words_cons d cs with
      ⟨hd, hwords⟩ | ⟨hd, hwords⟩ | ⟨hd, -, -, word, more, -, -, -, hwords⟩
    · rw [List.find?_cons_of_neg (by simp [hd])] at h
      rw [hwords]
      exact ih h
    · rw [List.find?_cons_of_pos hd] at h
      cases h
      exact ⟨[], words cs, hwords⟩
    · rw [List.find?_cons_of_pos hd] at h
      cases h
      exact ⟨word, more, hwords⟩

theorem head?_studly (name : Text) :
    (studly name).head? = (name.find? isAsciiAlnum).map (upperAscii ∘ lowerAscii) := by
  unfold studly
  cases h : name.find? isAsciiAlnum with
  | none => rw [words_of_find?_none h]; rfl
  | some c =>
    obtain ⟨rest, more, hwords⟩ := words_of_find?_some h
    rw [hwords]
    rfl

theorem head?_camel (name : Text) :
    (camel name).head? = (name.find? isAsciiAlnum).map lowerAscii := by
  unfold camel
  cases h : name.find? isAsciiAlnum with
  | none => rw [words_of_find?_none h]; rfl
  | some c =>
    obtain ⟨rest, more, hwords⟩ := words_of_find?_some h
    rw [hwords]
    rfl

theorem camel_alnum (name : Text) : ∀ c ∈ camel name, isAsciiAlnum c = true := by
  have hwords := words_alnum name
  unfold camel
  split
  · simp
  · rename_i word more heq
    rw [heq] at hwords
    obtain ⟨hword, hmore⟩ := List.forall_mem_cons.mp hwords
    intro c hc
    rcases List.mem_append.mp hc with hc | hc
    · exact hword c hc
    · obtain ⟨piece, hpiece, hcp⟩ := List.mem_flatten.mp hc
      obtain ⟨word', hword', rfl⟩ := List.mem_map.mp hpiece
      exact capitalize_alnum (hmore word' hword') c hcp

theorem beginsWithDigit_of_alnum {t : Text} (h : ∀ c ∈ t, isAsciiAlnum c = true) :
    beginsWithDigit t = t.head?.any isAsciiDigit := by
  unfold beginsWithDigit
  cases t with
  | nil => rfl
  | cons c rest => rw [List.find?_cons_of_pos (h c List.mem_cons_self), List.head?_cons]

/-- An ending without digits has no say in whether a name begins with one. -/
theorem beginsWithDigit_append {ending : Text} (name : Text)
    (h : ∀ c ∈ ending, isAsciiDigit c = false) :
    beginsWithDigit (name ++ ending) = beginsWithDigit name := by
  unfold beginsWithDigit
  rw [List.find?_append]
  cases hname : name.find? isAsciiAlnum with
  | some c => rfl
  | none =>
    cases hending : ending.find? isAsciiAlnum with
    | none => rfl
    | some c => exact h c (List.mem_of_find?_eq_some hending)

theorem beginsWithDigit_studly (name : Text) :
    beginsWithDigit (studly name) = beginsWithDigit name := by
  rw [beginsWithDigit_of_alnum (studly_alnum name), head?_studly, beginsWithDigit]
  cases name.find? isAsciiAlnum with
  | none => rfl
  | some c =>
    rw [Option.map_some, Option.any_some, Function.comp_apply, isAsciiDigit_upperAscii,
      isAsciiDigit_lowerAscii, Option.any_some]

theorem beginsWithDigit_camel (name : Text) :
    beginsWithDigit (camel name) = beginsWithDigit name := by
  rw [beginsWithDigit_of_alnum (camel_alnum name), head?_camel, beginsWithDigit]
  cases name.find? isAsciiAlnum with
  | none => rfl
  | some c => rw [Option.map_some, Option.any_some, isAsciiDigit_lowerAscii, Option.any_some]

theorem camel_studly_eq_nil {name : Text} : camel (studly name) = [] ↔ studly name = [] := by
  constructor
  · intro h
    have hhead := head?_camel (studly name)
    rw [h] at hhead
    cases hs : studly name with
    | nil => rfl
    | cons c rest =>
      have hc := studly_alnum name c (by simp [hs])
      rw [hs, List.find?_cons_of_pos hc] at hhead
      cases hhead
  · intro h
    rw [h]
    rfl

/-- Letters and digits are an identifier unless they begin with a digit. -/
theorem isIdentifier_iff_of_alnum {t : Text} (h : ∀ c ∈ t, isAsciiAlnum c = true) :
    isIdentifier t = true ↔ t ≠ [] ∧ beginsWithDigit t = false := by
  rw [isIdentifier_iff, beginsWithDigit_of_alnum h]
  have hchars : ∀ c ∈ t, isIdentifierChar c = true := by
    intro c hc
    simp [isIdentifierChar, h c hc]
  cases t with
  | nil => simp
  | cons c rest =>
    rw [List.head?_cons, Option.any_some, Option.any_some,
      isIdentifierStart_of_isAsciiAlnum (h c List.mem_cons_self), Bool.not_eq_true']
    exact ⟨fun hstart => ⟨List.cons_ne_nil c rest, hstart.1⟩, fun hdigit => ⟨hdigit.2, hchars⟩⟩

theorem isIdentifier_camel (name : Text) :
    isIdentifier (camel name) = true ↔ camel name ≠ [] ∧ beginsWithDigit name = false := by
  rw [isIdentifier_iff_of_alnum (camel_alnum name), beginsWithDigit_camel]

theorem beginsWithDigit_append_letters {ending : Text} (name : Text)
    (h : ending.all isAsciiLetter = true) :
    beginsWithDigit (name ++ ending) = beginsWithDigit name :=
  beginsWithDigit_append name fun c hc =>
    isAsciiDigit_of_isAsciiLetter (List.all_eq_true.mp h c hc)

/-- A class with an ending of letters is an identifier unless its name begins with a digit. -/
theorem isIdentifier_studly_append {ending : Text} (name : Text)
    (hletters : ending.all isAsciiLetter = true) (hsome : ending ≠ []) :
    isIdentifier (studly name ++ ending) = true ↔ beginsWithDigit name = false := by
  have halnum : ∀ c ∈ studly name ++ ending, isAsciiAlnum c = true := by
    intro c hc
    rcases List.mem_append.mp hc with hc | hc
    · exact studly_alnum name c hc
    · simp [isAsciiAlnum, List.all_eq_true.mp hletters c hc]
  rw [isIdentifier_iff_of_alnum halnum, beginsWithDigit_append_letters _ hletters,
    beginsWithDigit_studly]
  exact and_iff_right (List.append_ne_nil_of_right_ne_nil _ hsome)

end Words

namespace Inflection

open Words

/-- What a lower-cased name ends in stands at the end of the name, without digits. -/
theorem exists_ending {ending : Text} (h : ∀ c ∈ ending, isAsciiLower c = true) {name : Text}
    (hends : endsWith ending (lower name) = true) :
    ∃ front last, name = front ++ last ∧ last.length = ending.length ∧
      ∀ c ∈ last, isAsciiDigit c = false := by
  induction ending using List.reverseRecOn generalizing name with
  | nil => exact ⟨name, [], by simp⟩
  | append_singleton ending e ih =>
    obtain ⟨front, hfront⟩ := List.isSuffixOf_iff_suffix.mp hends
    rw [← List.append_assoc] at hfront
    rcases List.eq_nil_or_concat' name with rfl | ⟨rest, c, rfl⟩
    · simp [lower] at hfront
    obtain ⟨hrest, hdigit⟩ := lower_concat (h e (by simp)) hfront
    have hends' : endsWith ending (lower rest) = true :=
      List.isSuffixOf_iff_suffix.mpr ⟨front, hrest⟩
    obtain ⟨front', last, rfl, hlength, hlast⟩ := ih (fun c hc => h c (by simp [hc])) hends'
    refine ⟨front', last ++ [c], by simp, by simp [hlength], ?_⟩
    intro c' hc'
    rcases List.mem_append.mp hc' with hc' | hc'
    · exact hlast c' hc'
    · rwa [List.mem_singleton.mp hc']

/-- Another ending of letters in the place of one that is known. -/
theorem beginsWithDigit_ending (ending new : Text) (h : ending.all isAsciiLower = true)
    (hnew : new.all isAsciiLetter = true) {name : Text}
    (hends : endsWith ending (lower name) = true) :
    beginsWithDigit (dropEnd ending.length name ++ new) = beginsWithDigit name := by
  obtain ⟨front, last, rfl, hlength, hlast⟩ := exists_ending (List.all_eq_true.mp h) hends
  have hfront : dropEnd ending.length (front ++ last) = front := by
    unfold dropEnd
    rw [List.length_append, hlength, Nat.add_sub_cancel, List.take_left]
  rw [hfront, beginsWithDigit_append_letters front hnew, beginsWithDigit_append front hlast]

theorem beginsWithDigit_dropEnd (ending : Text) (h : ending.all isAsciiLower = true)
    {name : Text} (hends : endsWith ending (lower name) = true) :
    beginsWithDigit (dropEnd ending.length name) = beginsWithDigit name := by
  simpa using beginsWithDigit_ending ending [] h rfl hends

theorem irregularNouns_lower :
    ∀ pair ∈ irregularNouns, pair.1.all isAsciiLower = true ∧ pair.2.all isAsciiLower = true := by
  decide

theorem matchCase_digits (source : Text) {word : Text} (h : word.all isAsciiLower = true) :
    ∀ c ∈ matchCase source word, isAsciiDigit c = false := by
  have hword : ∀ c ∈ word, isAsciiDigit c = false := fun c hc =>
    isAsciiDigit_of_isAsciiLower (List.all_eq_true.mp h c hc)
  unfold matchCase
  split
  · split_ifs
    · obtain ⟨hw, hrest⟩ := List.forall_mem_cons.mp hword
      exact List.forall_mem_cons.mpr ⟨(isAsciiDigit_upperAscii _).trans hw, hrest⟩
    · exact hword
  · exact hword

/-- A name whose lower case is a noun has no digit, and nor has the noun put in its place. -/
theorem beginsWithDigit_matchCase {name noun : Text}
    (hname : (lower name).all isAsciiLower = true) (h : noun.all isAsciiLower = true) :
    beginsWithDigit (matchCase name noun) = beginsWithDigit name := by
  have hdigits : ∀ c ∈ name, isAsciiDigit c = false := by
    intro c hc
    by_contra hdigit
    rw [Bool.not_eq_false] at hdigit
    have hmem : c ∈ lower name :=
      List.mem_flatMap.mpr ⟨c, hc, by rw [lowerChar_of_isAsciiDigit hdigit]; simp⟩
    rw [isAsciiDigit_of_isAsciiLower (List.all_eq_true.mp hname c hmem)] at hdigit
    cases hdigit
  have hnone : ∀ t : Text, (∀ c ∈ t, isAsciiDigit c = false) → beginsWithDigit t = false :=
    fun t ht => beginsWithDigit_append [] ht
  rw [hnone _ (matchCase_digits name h), hnone name hdigits]

theorem beginsWithDigit_plural (name : Text) :
    beginsWithDigit (plural name) = beginsWithDigit name := by
  unfold plural
  split_ifs with hname
  · rw [hname]
  dsimp only
  split
  · rename_i many hmany
    obtain ⟨pair, hpair, rfl⟩ := Option.map_eq_some_iff.mp hmany
    have hword : pair.1 = lower name := by simpa using List.find?_some hpair
    have hlower := irregularNouns_lower pair (List.mem_of_find?_eq_some hpair)
    exact beginsWithDigit_matchCase (hword ▸ hlower.1) hlower.2
  · split_ifs
    · rfl
    unfold regularPlural
    split_ifs with hs hes hy hfe hf
    · rfl
    · exact beginsWithDigit_append_letters name rfl
    · exact beginsWithDigit_ending "y" "ies" rfl rfl (by simp_all)
    · exact beginsWithDigit_ending "fe" "ves" rfl rfl hfe
    · exact beginsWithDigit_ending "f" "ves" rfl rfl (by simp_all)
    · exact beginsWithDigit_append_letters name rfl

/-- A name has the singular that the table gives, or else it is singular in the table or follows
the rules for endings. -/
theorem singular_cases {name : Text} (hname : name ≠ []) :
    (∃ pair ∈ irregularNouns, pair.2 = lower name ∧ singular name = matchCase name pair.1) ∨
      singular name =
        if (irregularPlural? (lower name)).isSome then name
        else regularSingular name (lower name) := by
  unfold singular
  rw [if_neg hname]
  dsimp only
  split
  · rename_i one hone
    obtain ⟨pair, hpair, rfl⟩ := Option.map_eq_some_iff.mp hone
    exact Or.inl ⟨pair, List.mem_of_find?_eq_some hpair, by simpa using List.find?_some hpair, rfl⟩
  · exact Or.inr rfl

theorem beginsWithDigit_singular (name : Text) :
    beginsWithDigit (singular name) = beginsWithDigit name := by
  by_cases hname : name = []
  · rw [hname]
    rfl
  rcases singular_cases hname with ⟨pair, hpair, hword, hsingular⟩ | hsingular
  · have hlower := irregularNouns_lower pair hpair
    rw [hsingular]
    exact beginsWithDigit_matchCase (hword ▸ hlower.2) hlower.1
  · rw [hsingular]
    split_ifs
    · rfl
    unfold regularSingular
    split_ifs with hies hves hes hs
    · exact beginsWithDigit_ending "ies" "y" rfl rfl (by simp_all)
    · exact beginsWithDigit_ending "ves" "f" rfl rfl (by simp_all)
    · obtain ⟨tail, htail, hends⟩ := List.any_eq_true.mp hes
      have hshort : ∀ tail ∈ (["sses", "shes", "ches", "xes", "zes"] : List Text),
          "es" <:+ tail := by
        decide
      exact beginsWithDigit_dropEnd "es" rfl (List.isSuffixOf_iff_suffix.mpr
        ((hshort tail htail).trans (List.isSuffixOf_iff_suffix.mp hends)))
    · exact beginsWithDigit_dropEnd "s" rfl (by simp_all)
    · rfl

end Inflection

end ApiScaffold
