import ApiScaffold.Proofs.SnakeNames

/-!
# Singulars found again behind their plurals

The rules for plurals and the rules for singulars are two lists of endings, and they are not
inverse to each other. So the plural of a singular word may have another singular or none: `knife`
gives `knives` and this `knif`, and `menu` gives `menus`, which looks singular. For words of small
letters the endings with which this happens are all named here, together with the few words for
which the table of nouns is to blame. Every other word comes back.
-/
namespace ApiScaffold

open Text

namespace Text

variable {a b t : Text}

theorem endsWith_iff : endsWith a t = true ↔ a <:+ t := List.isSuffixOf_iff_suffix

theorem endsWithAny_iff {tails : List Text} :
    endsWithAny tails t = true ↔ ∃ tail ∈ tails, tail <:+ t := by
  simp only [endsWithAny, List.any_eq_true, endsWith_iff]

/-- Of two endings of one text the shorter one is an ending of the other. -/
theorem not_suffix_of_suffix (h : a <:+ t) (hab : ¬a <:+ b) (hba : ¬b <:+ a) : ¬b <:+ t :=
  fun hb => (List.suffix_or_suffix_of_suffix h hb).elim hab hba

theorem suffix_append_iff (a tail t : Text) : a ++ tail <:+ t ++ tail ↔ a <:+ t :=
  List.suffix_append_self_iff

theorem dropEnd_append {n : Nat} (t : Text) {e : Text} (h : e.length = n) :
    dropEnd n (t ++ e) = t := by
  rw [dropEnd, List.length_append, h, Nat.add_sub_cancel, List.take_left]

end Text

namespace Inflection

open Words

variable {w e : Text}

/-! ### Words of small letters and digits -/

theorem alnum_of_small (h : ∀ c ∈ w, isSmall c = true) : ∀ c ∈ w, isAsciiAlnum c = true := by
  intro c hc
  rw [isAsciiAlnum, isAsciiLetter, Bool.or_assoc, ← isSmall, h c hc, Bool.or_true]

theorem map_lowerAscii_of_small (h : ∀ c ∈ w, isSmall c = true) : w.map lowerAscii = w := by
  refine (List.map_congr_left fun c hc => ?_).trans (List.map_id w)
  exact lowerAscii_of_not_isAsciiUpper (by simp [isAsciiUpper_of_isSmall (h c hc)])

theorem lower_of_small (h : ∀ c ∈ w, isSmall c = true) : lower w = w := by
  rw [lower_of_alnum (alnum_of_small h), map_lowerAscii_of_small h]

theorem small_append (h : ∀ c ∈ w, isSmall c = true) (he : e.all isSmall = true) :
    ∀ c ∈ w ++ e, isSmall c = true :=
  List.forall_mem_append.mpr ⟨h, List.all_eq_true.mp he⟩

/-! ### Regular words -/

/-- A word that the table of nouns has in neither number. -/
def Regular (word : Text) : Prop := ∀ pair ∈ irregularNouns, pair.1 ≠ word ∧ pair.2 ≠ word

theorem Regular.lookups (h : Regular w) :
    irregularPlural? w = none ∧ irregularSingular? w = none := by
  constructor
  · simpa [irregularPlural?] using fun one many hpair => (h (one, many) hpair).1
  · simpa [irregularSingular?] using fun one many hpair => (h (one, many) hpair).2

theorem regular_append (h : ∀ pair ∈ irregularNouns, ¬e <:+ pair.1 ∧ ¬e <:+ pair.2) (w : Text) :
    Regular (w ++ e) := fun pair hpair =>
  ⟨fun heq => (h pair hpair).1 (heq ▸ List.suffix_append w e),
    fun heq => (h pair hpair).2 (heq ▸ List.suffix_append w e)⟩

theorem plural_of_regular (hne : w ≠ []) (h : ∀ c ∈ w, isSmall c = true) (hreg : Regular w) :
    plural w = regularPlural w w := by
  obtain ⟨hone, hmany⟩ := hreg.lookups
  rw [plural, if_neg hne, lower_of_small h]
  simp only [hone, hmany]
  rfl

theorem singular_of_regular (hne : w ≠ []) (h : ∀ c ∈ w, isSmall c = true)
    (hreg : Regular w) : singular w = regularSingular w w := by
  obtain ⟨hone, hmany⟩ := hreg.lookups
  rw [singular, if_neg hne, lower_of_small h]
  simp only [hone, hmany]
  rfl

theorem noun_inflected : ∀ pair ∈ irregularNouns,
    plural pair.1 = pair.2 ∧ singular pair.2 = pair.1 ∧ singular pair.1 = pair.1 := by
  decide

theorem singular_cases_of_small (hne : w ≠ []) (h : ∀ c ∈ w, isSmall c = true) :
    (∃ pair ∈ irregularNouns, pair.2 = w ∧ singular w = pair.1) ∨
      (∃ pair ∈ irregularNouns, pair.1 = w ∧ singular w = w) ∨
        Regular w ∧ singular w = regularSingular w w := by
  by_cases hmany : ∃ pair ∈ irregularNouns, pair.2 = w
  · obtain ⟨pair, hpair, rfl⟩ := hmany
    exact Or.inl ⟨pair, hpair, rfl, (noun_inflected pair hpair).2.1⟩
  by_cases hone : ∃ pair ∈ irregularNouns, pair.1 = w
  · obtain ⟨pair, hpair, rfl⟩ := hone
    exact Or.inr (Or.inl ⟨pair, hpair, rfl, (noun_inflected pair hpair).2.2⟩)
  have hreg : Regular w := fun pair hpair =>
    ⟨fun heq => hone ⟨pair, hpair, heq⟩, fun heq => hmany ⟨pair, hpair, heq⟩⟩
  exact Or.inr (Or.inr ⟨hreg, singular_of_regular hne h hreg⟩)

/-! ### Words that go astray -/

/-- Endings from which a rule takes more than the `s` of the plural. -/
def cutEndings : List Text := ["sse", "she", "che", "xe", "ze"]

/-- Endings that make a rule mistake the `s` of the plural for a part of the word. -/
def keptEndings : List Text := ["s", "u", "i"]

/-- Endings that get lost: the plural drops the `e`, its singular drops it, or the `s` of the plural
looks like the end of a singular. -/
def strayEndings : List Text := ["fe", "sse", "she", "che", "xe", "ze", "u", "i"]

/-- Endings that get lost in words of more than two letters. -/
def strayLongEndings : List Text := ["ie", "ve"]

/-- A word too short for its ending, and words whose plural is that of another noun in the table. -/
def strayWords : List Text := ["f", "ax", "indice", "matrice", "crise", "analyse", "statuse"]

/-- Words that the rules do not find again behind their plural. -/
def GoesAstray (word : Text) : Prop :=
  (∃ ending ∈ strayEndings, ending <:+ word) ∨
    (2 < word.length ∧ ∃ ending ∈ strayLongEndings, ending <:+ word) ∨ word ∈ strayWords

instance (word : Text) : Decidable (GoesAstray word) :=
  inferInstanceAs (Decidable (_ ∨ _ ∨ _))

/-- A word with another ending goes astray only as one of the list. -/
theorem not_goesAstray (h : e <:+ w)
    (hends : ∀ ending ∈ strayEndings ++ strayLongEndings, ¬e <:+ ending ∧ ¬ending <:+ e)
    (hwords : ∀ word ∈ strayWords, e <:+ word → word ≠ w) : ¬GoesAstray w := by
  have hother : ∀ ending ∈ strayEndings ++ strayLongEndings, ¬ending <:+ w := fun ending hmem =>
    not_suffix_of_suffix h (hends ending hmem).1 (hends ending hmem).2
  rintro (⟨ending, hmem, hend⟩ | ⟨-, ending, hmem, hend⟩ | hmem)
  · exact hother ending (List.mem_append_left _ hmem) hend
  · exact hother ending (List.mem_append_right _ hmem) hend
  · exact hwords w hmem h rfl

/-! ### One rule after the other -/

/-- Endings with an `e` in front of the `s` of the plural. -/
def hissingEndings : List Text := ["sh", "ch", "x", "z", "ss"]

theorem singular_append_es (h : ∀ c ∈ w, isSmall c = true) (hreg : Regular w)
    (he : e ∈ hissingEndings) (hend : e <:+ w) :
    singular (w ++ ("es" : Text)) = w ↔ ¬GoesAstray w := by
  by_cases hax : w = "ax"
  · rw [hax]
    decide
  have hastray : ¬GoesAstray w := by
    have hends : ∀ e ∈ hissingEndings,
        ∀ ending ∈ strayEndings ++ strayLongEndings, ¬e <:+ ending ∧ ¬ending <:+ e := by decide
    have hwords : ∀ e ∈ hissingEndings, ∀ word ∈ strayWords, e <:+ word → word = "ax" := by decide
    exact not_goesAstray hend (hends e he) fun word hword hend' heq =>
      hax (heq ▸ hwords e he word hword hend')
  refine iff_of_true ?_ hastray
  rcases singular_cases_of_small (by simp) (small_append h (e := "es") rfl) with
    ⟨pair, hpair, heq, -⟩ | ⟨pair, hpair, heq, -⟩ | ⟨-, hsingular⟩
  · have htable : ∀ pair ∈ irregularNouns, ∀ e ∈ hissingEndings, e <:+ dropEnd 2 pair.2 →
        dropEnd 2 pair.2 = "ax" ∨ ∃ noun ∈ irregularNouns, noun.1 = dropEnd 2 pair.2 := by decide
    have hword := htable pair hpair e he
    rw [heq, dropEnd_append (n := 2) w rfl] at hword
    obtain ⟨noun, hnoun, heq'⟩ := (hword hend).resolve_left hax
    exact absurd heq' (hreg noun hnoun).1
  · have htable : ∀ pair ∈ irregularNouns, ¬("es" : Text) <:+ pair.1 := by decide
    exact absurd (heq ▸ List.suffix_append w "es") (htable pair hpair)
  · have hnot : ∀ e ∈ hissingEndings, ∀ ending ∈ (["i", "v"] : List Text),
        ¬e <:+ ending ∧ ¬ending <:+ e := by decide
    have hother : ∀ ending ∈ (["i", "v"] : List Text),
        ¬ending ++ ("es" : Text) <:+ w ++ ("es" : Text) :=
      fun ending hmem hending => not_suffix_of_suffix hend (hnot e he ending hmem).1
        (hnot e he ending hmem).2 ((suffix_append_iff ending "es" w).mp hending)
    have hies : ¬endsWith "ies" (w ++ ("es" : Text)) = true :=
      mt endsWith_iff.mp (hother "i" (by decide))
    have hves : ¬endsWith "ves" (w ++ ("es" : Text)) = true :=
      mt endsWith_iff.mp (hother "v" (by decide))
    have htails : ∀ e ∈ hissingEndings,
        e ++ "es" ∈ (["sses", "shes", "ches", "xes", "zes"] : List Text) := by decide
    have hes : endsWithAny ["sses", "shes", "ches", "xes", "zes"] (w ++ ("es" : Text)) = true :=
      endsWithAny_iff.mpr ⟨e ++ "es", htails e he, (suffix_append_iff e "es" w).mpr hend⟩
    rw [hsingular, regularSingular]
    simp only [hies, hves, hes, Bool.false_and, if_true]
    exact dropEnd_append w rfl

theorem singular_append_ies (hne : w ≠ []) (h : ∀ c ∈ w, isSmall c = true) :
    singular (w ++ ("ies" : Text)) = w ++ "y" := by
  have hpos := List.length_pos_of_ne_nil hne
  rw [singular_of_regular (by simp) (small_append h rfl) (regular_append (by decide) w),
    regularSingular, if_pos, dropEnd_append (n := 3) w rfl]
  rw [Bool.and_eq_true, endsWith_iff, decide_eq_true_eq, List.length_append]
  exact ⟨List.suffix_append w "ies", Nat.lt_add_of_pos_left hpos⟩

theorem singular_append_ves (hne : w ≠ []) (h : ∀ c ∈ w, isSmall c = true) :
    singular (w ++ ("ves" : Text)) = w ++ "f" := by
  have hpos := List.length_pos_of_ne_nil hne
  have hies : ¬("ies" : Text) <:+ w ++ "ves" :=
    not_suffix_of_suffix (List.suffix_append w "ves") (by decide) (by decide)
  rw [singular_of_regular (by simp) (small_append h rfl) (regular_append (by decide) w),
    regularSingular, if_neg, if_pos, dropEnd_append (n := 3) w rfl]
  · rw [Bool.and_eq_true, endsWith_iff, decide_eq_true_eq, List.length_append]
    exact ⟨List.suffix_append w "ves", Nat.lt_add_of_pos_left hpos⟩
  · rw [Bool.and_eq_true, endsWith_iff]
    exact fun hends => hies hends.1

/-- The rules for singulars behind an `s`, by the ending of the word in front of it. -/
theorem regularSingular_append_s (w : Text) :
    regularSingular (w ++ ("s" : Text)) (w ++ ("s" : Text)) =
      if ("ie" : Text) <:+ w ∧ 2 < w.length then dropEnd 3 (w ++ ("s" : Text)) ++ "y"
      else if ("ve" : Text) <:+ w ∧ 2 < w.length then dropEnd 3 (w ++ ("s" : Text)) ++ "f"
      else if ∃ e ∈ cutEndings, e <:+ w then dropEnd 2 (w ++ ("s" : Text))
      else if ∃ e ∈ keptEndings, e <:+ w then w ++ ("s" : Text)
      else w := by
  have hends : ∀ e : Text, e ++ ("s" : Text) <:+ w ++ ("s" : Text) ↔ e <:+ w := fun e =>
    suffix_append_iff e "s" w
  have hany : ∀ tails : List Text,
      endsWithAny (tails.map (· ++ ("s" : Text))) (w ++ ("s" : Text)) = true ↔
        ∃ e ∈ tails, e <:+ w := fun tails => by
    simp only [endsWithAny_iff, List.mem_map, exists_exists_and_eq_and, hends]
  have hies : endsWith "ies" (w ++ ("s" : Text)) = true ↔ ("ie" : Text) <:+ w :=
    endsWith_iff.trans (hends "ie")
  have hves : endsWith "ves" (w ++ ("s" : Text)) = true ↔ ("ve" : Text) <:+ w :=
    endsWith_iff.trans (hends "ve")
  have hcut : endsWithAny ["sses", "shes", "ches", "xes", "zes"] (w ++ ("s" : Text)) = true ↔
      ∃ e ∈ cutEndings, e <:+ w := hany cutEndings
  have hkept : endsWithAny ["ss", "us", "is"] (w ++ ("s" : Text)) = true ↔
      ∃ e ∈ keptEndings, e <:+ w := hany keptEndings
  have hs : endsWith "s" (w ++ ("s" : Text)) = true := endsWith_iff.mpr (List.suffix_append w "s")
  have hlong : 3 < (w ++ ("s" : Text)).length ↔ 2 < w.length := by
    rw [List.length_append]
    exact Nat.add_lt_add_iff_right (k := 1)
  unfold regularSingular
  simp only [Bool.and_eq_true, Bool.not_eq_true', ← Bool.not_eq_true, decide_eq_true_eq, hies, hves,
    hcut, hkept, hs, hlong, true_and, ite_not, dropEnd_append (n := 1) w (e := "s") rfl]

/-- A word goes astray only where a rule takes its plural for another one's. -/
theorem not_goesAstray_of_rules (hfe : ¬("fe" : Text) <:+ w) (hf : w ≠ "f") (hax : w ≠ "ax")
    (hie : ¬(("ie" : Text) <:+ w ∧ 2 < w.length)) (hve : ¬(("ve" : Text) <:+ w ∧ 2 < w.length))
    (hcut : ¬∃ e ∈ cutEndings, e <:+ w) (hkept : ¬∃ e ∈ keptEndings, e <:+ w)
    (htable : ∀ pair ∈ irregularNouns, pair.2 ≠ w ++ ("s" : Text)) : ¬GoesAstray w := by
  have hends : ∀ e ∈ strayEndings, e = "fe" ∨ e ∈ cutEndings ∨ e ∈ keptEndings := by decide
  have hwords : ∀ v ∈ strayWords,
      v = "f" ∨ v = "ax" ∨ ∃ pair ∈ irregularNouns, pair.2 = v ++ "s" := by
    decide
  rintro (⟨e, he, hend⟩ | ⟨hlong, e, he, hend⟩ | hword)
  · rcases hends e he with rfl | hcut' | hkept'
    · exact hfe hend
    · exact hcut ⟨e, hcut', hend⟩
    · exact hkept ⟨e, hkept', hend⟩
  · rcases List.mem_pair.mp he with rfl | rfl
    · exact hie ⟨hend, hlong⟩
    · exact hve ⟨hend, hlong⟩
  · rcases hwords w hword with rfl | rfl | ⟨pair, hpair, heq⟩
    · exact hf rfl
    · exact hax rfl
    · exact htable pair hpair heq

theorem singular_append_s (hne : w ≠ []) (h : ∀ c ∈ w, isSmall c = true)
    (hs : ¬("s" : Text) <:+ w) (hfe : ¬("fe" : Text) <:+ w) (hf : w ≠ "f") (hax : w ≠ "ax") :
    singular (w ++ ("s" : Text)) = w ↔ ¬GoesAstray w := by
  have hlonger : w ++ ("s" : Text) ≠ w := by simp
  rcases singular_cases_of_small (by simp) (small_append h (e := "s") rfl) with
    ⟨pair, hpair, heq, hsingular⟩ | ⟨pair, hpair, heq, hsingular⟩ | ⟨hreg, hsingular⟩
  · have htable : ∀ pair ∈ irregularNouns, ("s" : Text) <:+ pair.2 →
        GoesAstray (dropEnd 1 pair.2) ∧ pair.1 ≠ dropEnd 1 pair.2 := by decide
    have hword := htable pair hpair (heq ▸ List.suffix_append w "s")
    rw [heq, dropEnd_append (n := 1) w rfl] at hword
    rw [hsingular]
    exact iff_of_false hword.2 (not_not_intro hword.1)
  · have htable : ∀ pair ∈ irregularNouns, ("s" : Text) <:+ pair.1 →
        ("s" : Text) <:+ dropEnd 1 pair.1 ∨ GoesAstray (dropEnd 1 pair.1) := by decide
    have hword := htable pair hpair (heq ▸ List.suffix_append w "s")
    rw [heq, dropEnd_append (n := 1) w rfl] at hword
    rw [hsingular]
    exact iff_of_false hlonger (not_not_intro (hword.resolve_left hs))
  · rw [hsingular, regularSingular_append_s]
    split_ifs with hie hve hcut hkept
    · have hlost : GoesAstray w := Or.inr (Or.inl ⟨hie.2, "ie", by decide, hie.1⟩)
      refine iff_of_false (fun heq => ?_) (not_not_intro hlost)
      exact not_suffix_of_suffix (b := "y") hie.1 (by decide) (by decide) ⟨_, heq⟩
    · have hlost : GoesAstray w := Or.inr (Or.inl ⟨hve.2, "ve", by decide, hve.1⟩)
      refine iff_of_false (fun heq => ?_) (not_not_intro hlost)
      exact not_suffix_of_suffix (b := "f") hve.1 (by decide) (by decide) ⟨_, heq⟩
    · obtain ⟨e, he, hend⟩ := hcut
      have hlost : GoesAstray w :=
        Or.inl ⟨e, (by decide : ∀ e ∈ cutEndings, e ∈ _) e he, hend⟩
      refine iff_of_false (fun heq => ?_) (not_not_intro hlost)
      have hlength := congrArg List.length heq
      have hpos := List.length_pos_of_ne_nil hne
      rw [dropEnd, List.length_take, List.length_append] at hlength
      simp at hlength
      omega
    · obtain ⟨e, he, hend⟩ := hkept
      have hes : e ≠ "s" := fun heq => hs (heq ▸ hend)
      have hends : ∀ e ∈ keptEndings, e = "s" ∨ e ∈ strayEndings := by decide
      exact iff_of_false hlonger
        (not_not_intro (Or.inl ⟨e, (hends e he).resolve_left hes, hend⟩))
    · exact iff_of_true rfl (not_goesAstray_of_rules hfe hf hax hie hve hcut hkept fun pair hpair =>
        (hreg pair hpair).2)

/-- Pluralising a singular word of small letters and making it singular again gives the word back,
unless it is one of those that go astray. -/
theorem singular_plural_iff (hne : w ≠ []) (hletters : ∀ c ∈ w, isAsciiLower c = true)
    (hsingular : singular w = w) : singular (plural w) = w ↔ ¬GoesAstray w := by
  have h : ∀ c ∈ w, isSmall c = true := fun c hc => by rw [isSmall, hletters c hc, Bool.true_or]
  by_cases hnoun : ∃ pair ∈ irregularNouns, pair.1 = w
  · obtain ⟨pair, hpair, rfl⟩ := hnoun
    have htable : ∀ pair ∈ irregularNouns, ¬GoesAstray pair.1 := by decide
    obtain ⟨hplural, hback, -⟩ := noun_inflected pair hpair
    rw [hplural]
    exact iff_of_true hback (htable pair hpair)
  have hreg : Regular w := fun pair hpair => by
    refine ⟨fun heq => hnoun ⟨pair, hpair, heq⟩, fun heq => hnoun ⟨pair, hpair, ?_⟩⟩
    rw [← hsingular, ← heq, (noun_inflected pair hpair).2.1]
  rw [plural_of_regular hne h hreg, regularPlural]
  simp only [Bool.and_eq_true, Bool.not_eq_true', ← Bool.not_eq_true, endsWith_iff, endsWithAny_iff]
  split_ifs with hs hes hy hfe hf
  · refine iff_of_true hsingular (not_goesAstray hs.1 (by decide) ?_)
    have hwords : ∀ word ∈ strayWords, ¬("s" : Text) <:+ word := by decide
    exact fun word hword hend => absurd hend (hwords word hword)
  · obtain ⟨e, he, hend⟩ := hes
    exact singular_append_es h hreg he hend
  · obtain ⟨front, rfl⟩ := hy.1.1
    have hfront : front ≠ [] := by
      rintro rfl
      exact absurd hy.1.2 (by decide)
    have hback := singular_append_ies hfront fun c hc => h c (List.mem_append_left _ hc)
    rw [dropEnd_append (n := 1) front rfl, hback]
    have hwords : ∀ word ∈ strayWords, ¬("y" : Text) <:+ word := by decide
    exact iff_of_true rfl (not_goesAstray (List.suffix_append front "y") (by decide)
      fun word hword hend => absurd hend (hwords word hword))
  · have hlost : GoesAstray w := Or.inl ⟨"fe", by decide, hfe⟩
    obtain ⟨front, rfl⟩ := hfe
    rw [dropEnd_append (n := 2) front rfl]
    refine iff_of_false ?_ (not_not_intro hlost)
    by_cases hfront : front = []
    · rw [hfront]
      decide
    · rw [singular_append_ves hfront fun c hc => h c (List.mem_append_left _ hc)]
      simp
  · obtain ⟨front, rfl⟩ := hf.1
    rw [dropEnd_append (n := 1) front rfl]
    by_cases hfront : front = []
    · rw [hfront]
      decide
    · rw [singular_append_ves hfront fun c hc => h c (List.mem_append_left _ hc)]
      have hwords : ∀ word ∈ strayWords, ("f" : Text) <:+ word → word = "f" := by decide
      refine iff_of_true rfl (not_goesAstray (List.suffix_append front "f") (by decide)
        fun word hword hend heq => hfront ?_)
      rw [hwords word hword hend] at heq
      exact List.eq_nil_of_length_eq_zero (by simpa using congrArg List.length heq)
  · refine singular_append_s hne h (fun hend => ?_) hfe ?_ ?_
    · have hss : ("ss" : Text) <:+ w := by
        by_contra hss
        exact hs ⟨hend, hss⟩
      exact hes ⟨"ss", by decide, hss⟩
    · rintro rfl
      exact hf (by decide)
    · rintro rfl
      exact hes (by decide)

/-- A word that ends like one that goes astray, but for a consonant. -/
theorem category_restored :
    ("category" : Text) ≠ [] ∧ (∀ c ∈ ("category" : Text), isAsciiLower c = true) ∧
      singular "category" = "category" ∧ ¬GoesAstray "category" ∧
        singular (plural "category") = "category" := by
  have hletters : ∀ c ∈ ("category" : Text), isAsciiLower c = true :=
    List.all_eq_true.mp (by decide)
  have hastray : ¬GoesAstray "category" := by decide
  have hsingular : singular "category" = "category" := by decide
  exact ⟨by decide, hletters, hsingular, hastray,
    (singular_plural_iff (by decide) hletters hsingular).mpr hastray⟩

/-- The plural turns `fe` into `ves`, and the singular makes `f` of it. -/
theorem knife_goes_astray :
    (∀ c ∈ ("knife" : Text), isAsciiLower c = true) ∧ singular "knife" = "knife" ∧
      plural "knife" = "knives" ∧ singular (plural "knife") = "knif" :=
  ⟨List.all_eq_true.mp (by decide), by decide, by decide, by decide⟩

end Inflection

end ApiScaffold
