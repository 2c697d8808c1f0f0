import ApiScaffold.Proofs.NameLetters
import Mathlib.Data.List.Chain

/-!
# Capitalising a name again

A capitalised name is made of letters and digits, and capitalising it again cuts it at its
capitals alone. So `XYPoint` becomes `XyPoint`: the name changes exactly when two capitals stand
side by side and no small letter follows them. The result has no such pair left, and a third time
changes nothing. The singular is compared with the name in the same way: when it is the name
again, then taking it once more does not change it either.
-/
namespace ApiScaffold

namespace Text

theorem isAsciiLower_of_isAsciiUpper {c : Char} (h : isAsciiUpper c = true) :
    isAsciiLower c = false := by
  by_contra hlower
  rw [Bool.not_eq_false, isAsciiLower_iff] at hlower
  have hn := (isAsciiUpper_iff c).mp h
  omega

theorem isAsciiUpper_of_isAsciiLower {c : Char} (h : isAsciiLower c = true) :
    isAsciiUpper c = false := by
  by_contra hupper
  rw [isAsciiLower_of_isAsciiUpper (by simpa using hupper)] at h
  cases h

theorem not_cased_of_isAsciiDigit {c : Char} (h : isAsciiDigit c = true) :
    isAsciiUpper c = false ∧ isAsciiLower c = false := by
  rw [← Bool.or_eq_false_iff, ← isAsciiLetter]
  by_contra hletter
  rw [isAsciiDigit_of_isAsciiLetter (by simpa using hletter)] at h
  cases h

theorem upperAscii_of_isAsciiLower_eq_false {c : Char} (h : isAsciiLower c = false) :
    upperAscii c = c := by
  rw [upperAscii, if_neg (by simp [h])]

theorem isAsciiUpper_lowerAscii (c : Char) : isAsciiUpper (lowerAscii c) = false := by
  by_contra hupper
  rw [Bool.not_eq_false] at hupper
  have hfixed := lowerAscii_lowerAscii c
  rw [lowerAscii, if_pos hupper] at hfixed
  have hn := (isAsciiUpper_iff _).mp hupper
  have hnat := congrArg Char.toNat hfixed
  rw [toNat_ofNat (by omega)] at hnat
  omega

theorem isAsciiLower_lowerAscii {c : Char} (h : isAsciiLetter c = true) :
    isAsciiLower (lowerAscii c) = true := by
  unfold lowerAscii
  split_ifs with hc
  · have hn := (isAsciiUpper_iff c).mp hc
    rw [isAsciiLower_iff, toNat_ofNat (by omega)]
    omega
  · exact (Bool.or_eq_true_iff.mp h).resolve_left hc

theorem isAsciiLower_upperAscii (c : Char) : isAsciiLower (upperAscii c) = false := by
  unfold upperAscii
  split_ifs with hc
  · have hn := (isAsciiLower_iff c).mp hc
    by_contra hlower
    rw [Bool.not_eq_false, isAsciiLower_iff, toNat_ofNat (by omega)] at hlower
    omega
  · simpa using hc

theorem isAsciiUpper_upperAscii {c : Char} (h : isAsciiLetter c = true) :
    isAsciiUpper (upperAscii c) = true := by
  unfold upperAscii
  split_ifs with hc
  · have hn := (isAsciiLower_iff c).mp hc
    rw [isAsciiUpper_iff, toNat_ofNat (by omega)]
    omega
  · exact (Bool.or_eq_true_iff.mp h).resolve_right hc

theorem upperAscii_lowerAscii (c : Char) : upperAscii (lowerAscii c) = upperAscii c := by
  by_cases hc : isAsciiUpper c = true
  · have hn := (isAsciiUpper_iff c).mp hc
    have hlower : isAsciiLower (Char.ofNat (c.toNat + 32)) = true := by
      rw [isAsciiLower_iff, toNat_ofNat (by omega)]
      omega
    rw [lowerAscii, if_pos hc, upperAscii, if_pos hlower, toNat_ofNat (by omega),
      Nat.add_sub_cancel, Char.ofNat_toNat,
      upperAscii_of_isAsciiLower_eq_false (isAsciiLower_of_isAsciiUpper hc)]
  · rw [lowerAscii_of_not_isAsciiUpper hc]

theorem lowerChar_of_alnum {c : Char} (h : isAsciiAlnum c = true) :
    lowerChar c = [lowerAscii c] := by
  rw [lowerChar, if_pos]
  rw [isAsciiAlnum_iff, isAsciiUpper_iff, isAsciiLower_iff, isAsciiDigit_iff] at h
  omega

theorem lower_of_alnum {t : Text} (h : ∀ c ∈ t, isAsciiAlnum c = true) :
    lower t = t.map lowerAscii := by
  rw [lower, List.flatMap_congr fun c hc => lowerChar_of_alnum (h c hc), List.map_eq_flatMap]

end Text

open Text

namespace Words

variable {c d : Char} {rest name : Text} {next : Option Char}

/-! ### Capitalised names, character by character -/

/-- The characters behind `c` in a capitalised name: small inside a word, a capital at its start. -/
def following (c : Char) : Text → Text
  | [] => []
  | d :: rest =>
    (if continues c d rest.head? then lowerAscii d else upperAscii d) :: following d rest

theorem words_of_alnum (h : ∀ d ∈ c :: rest, isAsciiAlnum d = true) :
    ∃ word more, words (c :: rest) = (lowerAscii c :: word) :: more ∧
      word ++ (more.map capitalize).flatten = following c rest := by
  induction rest generalizing c with
  | nil => exact ⟨[], [], by simp [words, h c List.mem_cons_self], rfl⟩
  | cons d rest ih =>
    obtain ⟨hc, hrest⟩ := List.forall_mem_cons.mp h
    obtain ⟨word, more, hwords, hflat⟩ := ih hrest
    unfold words
    rw [if_pos hc, following, ← hflat, hwords]
    dsimp only
    split_ifs
    · exact ⟨lowerAscii d :: word, more, rfl, rfl⟩
    · refine ⟨[], (lowerAscii d :: word) :: more, rfl, ?_⟩
      rw [List.map_cons, capitalize, upperAscii_lowerAscii]
      rfl

theorem studly_cons (h : ∀ d ∈ c :: rest, isAsciiAlnum d = true) :
    studly (c :: rest) = upperAscii c :: following c rest := by
  obtain ⟨word, more, hwords, hflat⟩ := words_of_alnum h
  rw [studly, hwords, List.map_cons, capitalize, upperAscii_lowerAscii, List.flatten_cons,
    List.cons_append, hflat]

/-- A word goes on with a letter behind a letter and with a digit behind a digit. -/
theorem continues_cases (h : continues c d next = true) :
    isAsciiLetter c = true ∧ isAsciiLetter d = true ∨
      isAsciiDigit c = true ∧ isAsciiDigit d = true := by
  simp only [continues, Bool.or_eq_true, Bool.and_eq_true] at h
  simp only [isAsciiLetter, Bool.or_eq_true]
  tauto

theorem alnum_of_continues (h : continues c d next = true) : isAsciiAlnum d = true := by
  rcases continues_cases h with ⟨-, hletter⟩ | ⟨-, hdigit⟩
  · rw [isAsciiAlnum, hletter, Bool.true_or]
  · rw [isAsciiAlnum, hdigit, Bool.or_true]

theorem exists_words (hd : isAsciiAlnum d = true) (rest : Text) :
    ∃ word more, words (d :: rest) = (lowerAscii d :: word) :: more :=
  words_of_find?_some (List.find?_cons_of_pos hd)

theorem continues_of_isAsciiLower (hc : isAsciiLetter c = true) (hd : isAsciiLower d = true) :
    continues c d next = true := by
  rcases Bool.or_eq_true_iff.mp hc with hc | hc <;> simp [continues, hc, hd]

/-- Small letters, or digits. -/
def Uniform (word : Text) : Prop :=
  (∀ c ∈ word, isAsciiLower c = true) ∨ ∀ c ∈ word, isAsciiDigit c = true

theorem uniform_singleton (hc : isAsciiAlnum c = true) : Uniform [lowerAscii c] := by
  rcases Bool.or_eq_true_iff.mp hc with hletter | hdigit
  · exact Or.inl (List.forall_mem_singleton.mpr (isAsciiLower_lowerAscii hletter))
  · exact Or.inr (List.forall_mem_singleton.mpr ((isAsciiDigit_lowerAscii c).trans hdigit))

theorem Uniform.cons {word : Text} (hcd : continues c d next = true)
    (h : Uniform (lowerAscii d :: word)) : Uniform (lowerAscii c :: lowerAscii d :: word) := by
  rcases continues_cases hcd with ⟨hc, hd⟩ | ⟨hc, hd⟩
  · refine Or.inl (List.forall_mem_cons.mpr ⟨isAsciiLower_lowerAscii hc, h.resolve_right ?_⟩)
    intro hdigits
    have hlower := isAsciiDigit_of_isAsciiLower (isAsciiLower_lowerAscii hd)
    rw [hdigits _ List.mem_cons_self] at hlower
    cases hlower
  · refine Or.inr (List.forall_mem_cons.mpr
      ⟨(isAsciiDigit_lowerAscii c).trans hc, h.resolve_left ?_⟩)
    intro hlowers
    have hdigit := isAsciiDigit_of_isAsciiLower (hlowers _ List.mem_cons_self)
    rw [isAsciiDigit_lowerAscii, hd] at hdigit
    cases hdigit

/-- Every word consists of small letters or of digits. -/
theorem words_uniform (name : Text) : ∀ word ∈ words name, word ≠ [] ∧ Uniform word := by
  induction name with
  | nil => simp [words]
  | cons c cs ih =>
    rcases words_cons c cs with ⟨-, h⟩ | ⟨hc, h⟩ | ⟨hc, d, rest, word, more, rfl, hcd, hcs, h⟩
    · rwa [h]
    · rw [h]
      exact List.forall_mem_cons.mpr ⟨⟨List.cons_ne_nil _ _, uniform_singleton hc⟩, ih⟩
    · obtain ⟨small, others, hwords⟩ := exists_words (alnum_of_continues hcd) rest
      obtain ⟨rfl, -⟩ := List.cons.inj (hcs.symm.trans hwords)
      rw [hcs] at ih
      obtain ⟨⟨-, hword⟩, hmore⟩ := List.forall_mem_cons.mp ih
      rw [h]
      exact List.forall_mem_cons.mpr ⟨⟨List.cons_ne_nil _ _, hword.cons hcd⟩, hmore⟩

/-- A small letter stands behind a letter. -/
def MayFollow (c d : Char) : Prop := isAsciiLower d = true → isAsciiLetter c = true

/-- No small letter opens a word: it stands neither in front nor behind a digit. -/
structure Capitalized (t : Text) : Prop where
  head : ∀ c ∈ t.head?, isAsciiLower c = false
  inner : t.IsChain MayFollow

theorem head?_capitalize (word : Text) : (capitalize word).head? = word.head?.map upperAscii := by
  cases word <;> rfl

theorem isChain_capitalize {word : Text} (h : Uniform word) :
    (capitalize word).IsChain MayFollow := by
  cases word with
  | nil => exact List.isChain_nil
  | cons c rest =>
    refine List.Pairwise.isChain (List.pairwise_of_forall_mem_list fun a ha b hb hlower => ?_)
    rw [capitalize] at ha hb
    rcases h with hword | hword
    · obtain ⟨hc, hrest⟩ := List.forall_mem_cons.mp hword
      rcases List.mem_cons.mp ha with rfl | ha
      · rw [isAsciiLetter, isAsciiUpper_upperAscii (by simp [isAsciiLetter, hc]), Bool.true_or]
      · rw [isAsciiLetter, hrest a ha, Bool.or_true]
    · obtain ⟨hc, hrest⟩ := List.forall_mem_cons.mp hword
      have hdigit : isAsciiDigit b = true := by
        rcases List.mem_cons.mp hb with rfl | hb
        · exact (isAsciiDigit_upperAscii c).trans hc
        · exact hrest b hb
      rw [isAsciiDigit_of_isAsciiLower hlower] at hdigit
      cases hdigit

theorem capitalized_studly (name : Text) : Capitalized (studly name) := by
  refine ⟨fun c hc => ?_, ?_⟩
  · rw [head?_studly] at hc
    obtain ⟨d, -, rfl⟩ := Option.map_eq_some_iff.mp hc
    exact isAsciiLower_upperAscii _
  · have hnil : [] ∉ (words name).map capitalize := by
      intro h
      obtain ⟨word, hword, heq⟩ := List.mem_map.mp h
      cases word with
      | nil => exact (words_uniform name _ hword).1 rfl
      | cons c rest => cases heq
    refine (List.isChain_flatten hnil).mpr ⟨fun word h => ?_, ?_⟩
    · obtain ⟨small, hsmall, rfl⟩ := List.mem_map.mp h
      exact isChain_capitalize (words_uniform name small hsmall).2
    · refine List.Pairwise.isChain (List.pairwise_of_forall_mem_list fun _ _ b hb => ?_)
      intro x _ y hy hlower
      obtain ⟨small, -, rfl⟩ := List.mem_map.mp hb
      rw [head?_capitalize] at hy
      obtain ⟨d, -, rfl⟩ := Option.map_eq_some_iff.mp hy
      rw [isAsciiLower_upperAscii] at hlower
      cases hlower

/-- Whether two capitals stand side by side of which the second has no small letter behind it. -/
def hasAcronym : Text → Bool
  | c :: d :: rest =>
    (isAsciiUpper c && isAsciiUpper d && !rest.head?.any isAsciiLower) || hasAcronym (d :: rest)
  | _ => false

/-- A character keeps its case unless it is the second capital of such a pair. -/
theorem recased_eq_iff (hd : isAsciiAlnum d = true)
    (hletter : MayFollow c d) :
    (if continues c d next then lowerAscii d else upperAscii d) = d ↔
      (isAsciiUpper c && isAsciiUpper d && !next.any isAsciiLower) = false := by
  rcases (isAsciiAlnum_iff d).mp hd with (hupper | hlower) | hdigit
  · -- A capital stays one unless it goes on with the word.
    have hnl := isAsciiLower_of_isAsciiUpper hupper
    have hnd := isAsciiDigit_of_isAsciiLetter (c := d) (by rw [isAsciiLetter, hupper, Bool.true_or])
    have hmoved : lowerAscii d ≠ d := by
      intro heq
      rw [← heq, isAsciiUpper_lowerAscii] at hupper
      cases hupper
    have hcontinues : continues c d next = (isAsciiUpper c && isAsciiUpper d &&
        !next.any isAsciiLower) := by
      simp [continues, hnl, hnd]
    rw [hcontinues, upperAscii_of_isAsciiLower_eq_false hnl]
    split_ifs with h <;> simp [h, hmoved]
  · -- A small letter stands behind a letter and goes on with its word.
    have hnu := isAsciiUpper_of_isAsciiLower hlower
    rw [if_pos (continues_of_isAsciiLower (hletter hlower) hlower),
      lowerAscii_of_not_isAsciiUpper (by simp [hnu])]
    simp [hnu]
  · obtain ⟨hnu, hnl⟩ := not_cased_of_isAsciiDigit hdigit
    rw [lowerAscii_of_not_isAsciiUpper (by simp [hnu]), upperAscii_of_isAsciiLower_eq_false hnl]
    simp [hnu]

theorem following_eq_self_iff (h : ∀ d ∈ c :: rest, isAsciiAlnum d = true)
    (hchain : (c :: rest).IsChain MayFollow) :
    following c rest = rest ↔ hasAcronym (c :: rest) = false := by
  induction rest generalizing c with
  | nil => exact iff_of_true rfl rfl
  | cons d rest ih =>
    obtain ⟨-, hrest⟩ := List.forall_mem_cons.mp h
    obtain ⟨hletter, hchain⟩ := List.isChain_cons_cons.mp hchain
    rw [following, hasAcronym, Bool.or_eq_false_iff, List.cons.injEq, ih hrest hchain,
      recased_eq_iff (hrest d List.mem_cons_self) hletter]

/-- No acronym is left when a name of letters and digits is capitalised. -/
theorem hasAcronym_following (h : ∀ d ∈ c :: rest, isAsciiAlnum d = true)
    (hchain : (c :: rest).IsChain MayFollow)
    {x : Char} (hx : isAsciiUpper x = true → isAsciiUpper c = true) :
    hasAcronym (x :: following c rest) = false := by
  induction rest generalizing c x with
  | nil => rfl
  | cons d rest ih =>
    obtain ⟨hc, hrest⟩ := List.forall_mem_cons.mp h
    obtain ⟨hletter, hchain⟩ := List.isChain_cons_cons.mp hchain
    -- A capital that is made here was one before, or a digit stands before it.
    have hcapital : isAsciiUpper (if continues c d rest.head? then lowerAscii d else upperAscii d) =
        true → isAsciiUpper d = true ∧ continues c d rest.head? = false := by
      split_ifs with hcd
      · simp [isAsciiUpper_lowerAscii]
      · intro hup
        refine ⟨?_, by simpa using hcd⟩
        rcases (isAsciiAlnum_iff d).mp (hrest d List.mem_cons_self) with (hd | hd) | hd
        · exact hd
        · exact absurd (continues_of_isAsciiLower (hletter hd) hd) hcd
        · rw [← isAsciiDigit_upperAscii] at hd
          rw [(not_cased_of_isAsciiDigit hd).1] at hup
          cases hup
    rw [following, hasAcronym, Bool.or_eq_false_iff]
    refine ⟨?_, ih hrest hchain fun hup => (hcapital hup).1⟩
    by_contra hpair
    simp only [Bool.not_eq_false, Bool.and_eq_true, Bool.not_eq_true'] at hpair
    obtain ⟨⟨hup, hup'⟩, hsmall⟩ := hpair
    obtain ⟨hd, hbreak⟩ := hcapital hup'
    have hnext : rest.head?.any isAsciiLower = true := by
      simp only [continues, Bool.or_eq_false_iff, hx hup, hd, Bool.true_and] at hbreak
      simpa using hbreak.2
    cases rest with
    | nil => cases hnext
    | cons n rest =>
      have hn : isAsciiLower n = true := hnext
      have hcontinues : continues d n rest.head? = true :=
        continues_of_isAsciiLower (by rw [isAsciiLetter, hd, Bool.true_or]) hn
      rw [following, if_pos hcontinues, lowerAscii_of_not_isAsciiUpper (by
        simp [isAsciiUpper_of_isAsciiLower hn])] at hsmall
      rw [List.head?_cons, Option.any_some, hn] at hsmall
      cases hsmall

/-- A name changes when it is capitalised again exactly if it has an acronym. -/
theorem studly_studly_eq_iff (name : Text) :
    studly (studly name) = studly name ↔ hasAcronym (studly name) = false := by
  have halnum := studly_alnum name
  have hcapitalized := capitalized_studly name
  cases h : studly name with
  | nil => exact iff_of_true rfl rfl
  | cons c rest =>
    rw [h] at halnum hcapitalized
    rw [studly_cons halnum, upperAscii_of_isAsciiLower_eq_false (hcapitalized.head c rfl),
      List.cons.injEq, following_eq_self_iff halnum hcapitalized.inner]
    exact and_iff_right rfl

/-- Capitalised twice, a name has no acronym. -/
theorem hasAcronym_studly_studly (name : Text) : hasAcronym (studly (studly name)) = false := by
  have halnum := studly_alnum name
  have hcapitalized := capitalized_studly name
  cases h : studly name with
  | nil => rfl
  | cons c rest =>
    rw [h] at halnum hcapitalized
    rw [studly_cons halnum, upperAscii_of_isAsciiLower_eq_false (hcapitalized.head c rfl)]
    exact hasAcronym_following halnum hcapitalized.inner id

theorem studly_studly_studly (name : Text) :
    studly (studly (studly name)) = studly (studly name) :=
  (studly_studly_eq_iff (studly name)).mpr (hasAcronym_studly_studly name)

/-- Case apart, a name of letters and digits stays what it is. -/
theorem lower_studly_of_alnum (h : ∀ c ∈ name, isAsciiAlnum c = true) :
    (studly name).map lowerAscii = name.map lowerAscii := by
  rw [lower_studly, List.filter_eq_self.mpr h]

end Words

/-! ### The singular of a capitalised name -/

namespace Inflection

variable {a b name : Text}

theorem map_lowerAscii_of_lower {word : Text} (h : ∀ c ∈ word, isAsciiLower c = true) :
    word.map lowerAscii = word := by
  refine (List.map_congr_left fun c hc => ?_).trans (List.map_id word)
  exact lowerAscii_of_not_isAsciiUpper (by simp [isAsciiUpper_of_isAsciiLower (h c hc)])

theorem lower_matchCase (source : Text) {word : Text} (h : word.all isAsciiLower = true) :
    (matchCase source word).map lowerAscii = word := by
  have hword := map_lowerAscii_of_lower (List.all_eq_true.mp h)
  unfold matchCase
  split
  · split_ifs
    · rw [List.map_cons, lowerAscii_upperAscii, ← List.map_cons, hword]
    · exact hword
  · exact hword

/-- Up to case, the singular depends on the name up to case. -/
theorem lower_singular_congr (ha : ∀ c ∈ a, isAsciiAlnum c = true)
    (hb : ∀ c ∈ b, isAsciiAlnum c = true) (h : a.map lowerAscii = b.map lowerAscii) :
    (singular a).map lowerAscii = (singular b).map lowerAscii := by
  have hlength : a.length = b.length := by simpa using congrArg List.length h
  have hlower : lower a = lower b := by rw [lower_of_alnum ha, lower_of_alnum hb, h]
  have hregular : (regularSingular a (lower b)).map lowerAscii =
      (regularSingular b (lower b)).map lowerAscii := by
    unfold regularSingular dropEnd
    simp only [apply_ite (List.map lowerAscii), List.map_append, List.map_take, h, hlength]
  by_cases hnil : b = []
  · rw [hnil, List.length_nil, List.length_eq_zero_iff] at hlength
    rw [hnil, hlength]
  have hnil' : a ≠ [] := by
    rwa [Ne, ← List.length_eq_zero_iff, hlength, List.length_eq_zero_iff]
  unfold singular
  rw [if_neg hnil, if_neg hnil', hlower]
  dsimp only
  split
  · rename_i one hone
    obtain ⟨pair, hpair, rfl⟩ := Option.map_eq_some_iff.mp hone
    have hword := (irregularNouns_lower pair (List.mem_of_find?_eq_some hpair)).1
    rw [lower_matchCase a hword, lower_matchCase b hword]
  · rw [apply_ite (List.map lowerAscii), apply_ite (List.map lowerAscii), h, hregular]

/-- A singular that is the name but for case is the name itself, or the one noun of the table that
has no other plural. -/
theorem singular_eq_self_or (hname : ∀ c ∈ name, isAsciiAlnum c = true)
    (h : (singular name).map lowerAscii = name.map lowerAscii) :
    singular name = name ∨ name.map lowerAscii = "media" := by
  by_cases hnil : name = []
  · rw [hnil]
    exact Or.inl rfl
  have hlength : (singular name).length = name.length := by simpa using congrArg List.length h
  have hpos := List.length_pos_of_ne_nil hnil
  rcases singular_cases hnil with ⟨pair, hpair, hword, hsingular⟩ | hsingular
  · have hsame : ∀ pair ∈ irregularNouns, pair.1 = pair.2 → pair.2 = "media" := by decide
    rw [hsingular, lower_matchCase name (irregularNouns_lower pair hpair).1,
      ← lower_of_alnum hname, ← hword] at h
    rw [← lower_of_alnum hname, ← hword]
    exact Or.inr (hsame pair hpair h)
  · left
    rw [hsingular] at hlength ⊢
    split_ifs at hlength ⊢ with hplural
    · rfl
    -- Every rule but the last makes the name shorter.
    unfold regularSingular dropEnd at hlength ⊢
    split_ifs at hlength ⊢ with hies hves hes hs
    · simp at hies hlength
      omega
    · simp at hves hlength
      omega
    · simp at hlength
      omega
    · simp at hlength
      omega
    · rfl

theorem singular_alnum (h : ∀ c ∈ name, isAsciiAlnum c = true) :
    ∀ c ∈ singular name, isAsciiAlnum c = true := by
  by_cases hnil : name = []
  · rw [hnil]
    simp [singular]
  have hdrop (n : Nat) : ∀ c ∈ dropEnd n name, isAsciiAlnum c = true := fun c hc =>
    h c (List.mem_of_mem_take hc)
  rcases singular_cases hnil with ⟨pair, hpair, -, hsingular⟩ | hsingular
  · rw [hsingular]
    exact matchCase_alnum name (irregularNouns_lower pair hpair).1
  · rw [hsingular]
    unfold regularSingular
    split_ifs
    · exact h
    · exact List.forall_mem_append.mpr ⟨hdrop 3, List.forall_mem_singleton.mpr (by decide)⟩
    · exact List.forall_mem_append.mpr ⟨hdrop 3, List.forall_mem_singleton.mpr (by decide)⟩
    · exact hdrop 2
    · exact hdrop 1
    · exact h

theorem singular_media (hcapital : Words.Capitalized name)
    (hname : ∀ c ∈ name, isAsciiAlnum c = true) (h : name.map lowerAscii = "media") :
    singular name = "Media" := by
  cases name with
  | nil => cases h
  | cons c rest =>
    have hlower : lower (c :: rest) = "media" := by rw [lower_of_alnum hname, h]
    have hupper : isAsciiUpper c = true := by
      by_contra hupper
      have hc : lowerAscii c = 'm' := (List.cons.inj h).1
      rw [lowerAscii_of_not_isAsciiUpper hupper] at hc
      exact absurd (hcapital.head c rfl) (by rw [hc]; decide)
    have hone : irregularSingular? "media" = some ("media" : Text) := by decide
    have hmatch : matchCase (c :: rest) "media" = "Media" := by
      show (if isAsciiUpper c = true then _ else _) = _
      rw [if_pos hupper]
      decide
    unfold singular
    rw [if_neg (List.cons_ne_nil c rest), hlower]
    simp only [hone, hmatch]

end Inflection

/-- Where capitalising a capitalised name again gives its singular form, that form is singular. -/
theorem entityForm_of_eq_studly {name : Text}
    (h : entityForm (Words.studly name) = Words.studly (Words.studly name)) :
    entityForm (Words.studly (Words.studly name)) = Words.studly (Words.studly name) := by
  have halnum := Words.studly_alnum name
  have halnum' := Words.studly_alnum (Words.studly name)
  have hlower := Words.lower_studly_of_alnum halnum
  have hsame : (Inflection.singular (Words.studly name)).map lowerAscii =
      (Words.studly name).map lowerAscii := by
    rw [← Words.lower_studly_of_alnum (Inflection.singular_alnum halnum), ← entityForm, h, hlower]
  have hsame' : (Inflection.singular (Words.studly (Words.studly name))).map lowerAscii =
      (Words.studly (Words.studly name)).map lowerAscii := by
    rw [Inflection.lower_singular_congr halnum' halnum hlower, hsame, hlower]
  rcases Inflection.singular_eq_self_or halnum' hsame' with hself | hmedia
  · rw [entityForm, hself, Words.studly_studly_studly]
  · rw [hlower] at hmedia
    have hsingular := Inflection.singular_media (Words.capitalized_studly name) halnum hmedia
    have hform : Words.studly (Words.studly name) = "Media" := by
      rw [← h, entityForm, hsingular]
      decide
    rw [hform]
    decide

end ApiScaffold
