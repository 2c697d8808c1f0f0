import ApiScaffold.Proofs.RestoredSingulars

/-!
# Forms of names that settle

Entities are looked up by the form of a name, singular and capitalised, and names in that form are
put into it again. This need not leave them alone. Taking the singular sees the name as it is
spelled, so a plural before an underscore is found only when the underscore is gone; the singular
of `datas` is the plural of the table, `data`; and capitals that were words on their own are one
word the second time. When each of these has had its turn, after three times, the form stays.
-/
namespace ApiScaffold

open Text Words

namespace Inflection

variable {w name : Text}

/-! ### Singulars of singulars -/

/-- Endings of singulars in `s`. -/
def singularEndings : List Text := ["ss", "us", "is"]

/-- A word that is no plural of the table and that no rule takes for a plural. -/
def LooksSingular (word : Text) : Prop :=
  (∀ pair ∈ irregularNouns, pair.2 ≠ word) ∧
    (("s" : Text) <:+ word → ∃ ending ∈ singularEndings, ending <:+ word)

instance (word : Text) : Decidable (LooksSingular word) :=
  inferInstanceAs (Decidable (_ ∧ (_ → _)))

theorem regularSingular_eq_self_iff (w : Text) :
    regularSingular w w = w ↔ (("s" : Text) <:+ w → ∃ e ∈ singularEndings, e <:+ w) := by
  have hother : ∀ tail : Text, tail <:+ w → ("s" : Text) <:+ tail →
      (∀ e ∈ singularEndings, ¬tail <:+ e ∧ ¬e <:+ tail) →
        ¬(("s" : Text) <:+ w → ∃ e ∈ singularEndings, e <:+ w) := by
    intro tail htail hs hends h
    obtain ⟨e, he, hend⟩ := h (hs.trans htail)
    exact not_suffix_of_suffix htail (hends e he).1 (hends e he).2 hend
  have hshorter : ∀ n, 0 < n → ("s" : Text) <:+ w → dropEnd n w ≠ w := by
    intro n hn hs heq
    have hlength := congrArg List.length heq
    have hpos : 0 < w.length := hs.length_le
    rw [dropEnd, List.length_take] at hlength
    omega
  unfold regularSingular
  simp only [Bool.and_eq_true, Bool.not_eq_true', ← Bool.not_eq_true, endsWith_iff, endsWithAny_iff]
  split_ifs with hies hves hes hs
  · refine iff_of_false (fun heq => ?_) (hother "ies" hies.1 (by decide) (by decide))
    exact not_suffix_of_suffix (b := "y") hies.1 (by decide) (by decide) ⟨_, heq⟩
  · refine iff_of_false (fun heq => ?_) (hother "ves" hves.1 (by decide) (by decide))
    exact not_suffix_of_suffix (b := "f") hves.1 (by decide) (by decide) ⟨_, heq⟩
  · obtain ⟨tail, htail, hend⟩ := hes
    have htails : ∀ tail ∈ (["sses", "shes", "ches", "xes", "zes"] : List Text),
        ("s" : Text) <:+ tail ∧ ∀ e ∈ singularEndings, ¬tail <:+ e ∧ ¬e <:+ tail := by decide
    obtain ⟨htail, hends⟩ := htails tail htail
    exact iff_of_false (hshorter 2 (by decide) (htail.trans hend)) (hother tail hend htail hends)
  · exact iff_of_false (hshorter 1 (by decide) hs.1) fun h => hs.2 (h hs.1)
  · refine iff_of_true rfl fun hend => ?_
    by_contra hnone
    exact hs ⟨hend, hnone⟩

/-- The singular leaves alone what looks singular, and the one plural of the table that is a
singular as well. -/
theorem singular_eq_self_iff (h : ∀ c ∈ w, isSmall c = true) :
    singular w = w ↔ w = "media" ∨ LooksSingular w := by
  by_cases hne : w = []
  · rw [hne]
    decide
  rcases singular_cases_of_small hne h with
    ⟨pair, hpair, rfl, hsingular⟩ | ⟨pair, hpair, rfl, hsingular⟩ | ⟨hreg, hsingular⟩
  · have htable : ∀ pair ∈ irregularNouns, pair.1 = pair.2 ↔ pair.2 = "media" := by decide
    rw [hsingular, htable pair hpair]
    exact (or_iff_left fun hlooks => hlooks.1 pair hpair rfl).symm
  · have htable : ∀ pair ∈ irregularNouns, pair.1 = "media" ∨ LooksSingular pair.1 := by decide
    exact iff_of_true hsingular (htable pair hpair)
  · have hmedia : w ≠ "media" := fun heq => (hreg ("media", "media") (by decide)).1 heq.symm
    rw [hsingular, regularSingular_eq_self_iff, or_iff_right hmedia]
    exact (and_iff_right fun pair hpair => (hreg pair hpair).2).symm

theorem singular_small (h : ∀ c ∈ w, isSmall c = true) : ∀ c ∈ singular w, isSmall c = true := by
  by_cases hne : w = []
  · rw [hne]
    exact List.all_eq_true.mp (by decide)
  have hdrop : ∀ n, ∀ c ∈ dropEnd n w, isSmall c = true := fun n c hc =>
    h c (List.mem_of_mem_take hc)
  rcases singular_cases_of_small hne h with
    ⟨pair, hpair, -, hsingular⟩ | ⟨-, -, -, hsingular⟩ | ⟨-, hsingular⟩
  · have htable : ∀ pair ∈ irregularNouns, pair.1.all isSmall = true := by decide
    rw [hsingular]
    exact List.all_eq_true.mp (htable pair hpair)
  · rwa [hsingular]
  · rw [hsingular, regularSingular]
    split_ifs
    · exact small_append (hdrop 3) rfl
    · exact small_append (hdrop 3) rfl
    · exact hdrop 2
    · exact hdrop 1
    · exact h

/-- An ending tells that a word looks singular when no plural of the table has it. -/
theorem looksSingular_of_suffix {e : Text} (h : e <:+ w)
    (hends : ¬e <:+ ("s" : Text) ∧ ¬("s" : Text) <:+ e ∨ e ∈ singularEndings)
    (htable : ∀ pair ∈ irregularNouns, ¬e <:+ pair.2) : LooksSingular w := by
  refine ⟨fun pair hpair heq => htable pair hpair (heq ▸ h), fun hs => ?_⟩
  rcases hends with hends | he
  · exact absurd hs (not_suffix_of_suffix h hends.1 hends.2)
  · exact ⟨e, he, h⟩

/-- A singular looks singular, unless it is the noun that is its own plural or an `s` stood behind a
plural of the table. -/
theorem looksSingular_singular (h : ∀ c ∈ w, isSmall c = true) :
    LooksSingular (singular w) ∨ w = "media" ∨
      ∃ pair ∈ irregularNouns, w = pair.2 ++ "s" ∧ singular w = pair.2 := by
  have htable : ∀ pair ∈ irregularNouns,
      LooksSingular pair.1 ∨ pair.1 = "media" ∧ pair.2 = "media" := by decide
  by_cases hne : w = []
  · rw [hne]
    exact Or.inl (by decide)
  rcases singular_cases_of_small hne h with
    ⟨pair, hpair, rfl, hsingular⟩ | ⟨pair, hpair, rfl, hsingular⟩ | ⟨hreg, hsingular⟩
  · rw [hsingular]
    exact (htable pair hpair).imp_right fun hmedia => Or.inl hmedia.2
  · rw [hsingular]
    exact (htable pair hpair).imp_right fun hmedia => Or.inl hmedia.1
  rw [hsingular, regularSingular]
  simp only [Bool.and_eq_true, Bool.not_eq_true', ← Bool.not_eq_true, endsWith_iff, endsWithAny_iff]
  split_ifs with hies hves hes hs
  · have hy : ∀ pair ∈ irregularNouns, ¬("y" : Text) <:+ pair.2 := by decide
    exact Or.inl (looksSingular_of_suffix (List.suffix_append (dropEnd 3 w) "y") (by decide) hy)
  · have hf : ∀ pair ∈ irregularNouns, ¬("f" : Text) <:+ pair.2 := by decide
    exact Or.inl (looksSingular_of_suffix (List.suffix_append (dropEnd 3 w) "f") (by decide) hf)
  · obtain ⟨tail, htail, hend⟩ := hes
    have htails : ∀ tail ∈ (["sses", "shes", "ches", "xes", "zes"] : List Text),
        ∃ e ∈ hissingEndings, tail = e ++ "es" := by decide
    have hends : ∀ e ∈ hissingEndings, (¬e <:+ ("s" : Text) ∧ ¬("s" : Text) <:+ e ∨
        e ∈ singularEndings) ∧ ∀ pair ∈ irregularNouns, ¬e <:+ pair.2 := by decide
    obtain ⟨e, he, rfl⟩ := htails tail htail
    obtain ⟨front, rfl⟩ := hend
    rw [← List.append_assoc, dropEnd_append (n := 2) (front ++ e) rfl]
    exact Or.inl (looksSingular_of_suffix (List.suffix_append front e) (hends e he).1
      (hends e he).2)
  · obtain ⟨front, rfl⟩ := hs.1
    rw [dropEnd_append (n := 1) front rfl]
    by_cases hplural : ∃ pair ∈ irregularNouns, pair.2 = front
    · obtain ⟨pair, hpair, rfl⟩ := hplural
      exact Or.inr (Or.inr ⟨pair, hpair, rfl, rfl⟩)
    · have hss : ¬("s" : Text) <:+ front := fun hend =>
        hs.2 ⟨"ss", by decide, (suffix_append_iff "s" "s" front).mpr hend⟩
      exact Or.inl ⟨fun pair hpair heq => hplural ⟨pair, hpair, heq⟩,
        fun hend => absurd hend hss⟩
  · refine Or.inl ⟨fun pair hpair => (hreg pair hpair).2, fun hend => ?_⟩
    by_contra hnone
    exact hs ⟨hend, hnone⟩

theorem matchCase_cases (source word : Text) :
    matchCase source word = word ∨ matchCase source word = capitalize word := by
  unfold matchCase
  split
  · split_ifs
    · exact Or.inr rfl
    · exact Or.inl rfl
  · exact Or.inl rfl

end Inflection

/-! ### Names in the form of entities -/

variable {name : Text}

theorem small_map_lowerAscii (h : ∀ c ∈ name, isAsciiAlnum c = true) :
    ∀ c ∈ name.map lowerAscii, isSmall c = true := by
  intro c hc
  obtain ⟨d, hd, rfl⟩ := List.mem_map.mp hc
  rw [isSmall, isAsciiLower_lowerAscii_eq, isAsciiDigit_lowerAscii, ← isAsciiAlnum, h d hd]

/-- Up to case, the form of a name of letters and digits is its singular. -/
theorem lower_entityForm (h : ∀ c ∈ name, isAsciiAlnum c = true) :
    lower (entityForm name) = Inflection.singular (lower name) := by
  have hsmall := small_map_lowerAscii h
  have hsingular : (Inflection.singular name).map lowerAscii =
      Inflection.singular (name.map lowerAscii) := by
    rw [Inflection.lower_singular_congr h (Inflection.alnum_of_small hsmall)
      (Inflection.map_lowerAscii_of_small hsmall).symm,
      Inflection.map_lowerAscii_of_small (Inflection.singular_small hsmall)]
  rw [entityForm, lower_of_alnum (studly_alnum (Inflection.singular name)),
    lower_studly_of_alnum (Inflection.singular_alnum h), hsingular, lower_of_alnum h]

/-- A capitalised name is in the form of entities when it is singular and has no acronym. -/
theorem entityForm_studly_iff (name : Text) :
    entityForm (studly name) = studly name ↔
      Inflection.singular (studly name) = studly name ∧ hasAcronym (studly name) = false := by
  have halnum := studly_alnum name
  rw [← studly_studly_eq_iff]
  constructor
  · intro h
    have hsame : (Inflection.singular (studly name)).map lowerAscii =
        (studly name).map lowerAscii := by
      rw [← lower_studly_of_alnum (Inflection.singular_alnum halnum), ← entityForm, h]
    rcases Inflection.singular_eq_self_or halnum hsame with hself | hmedia
    · rw [entityForm, hself] at h
      exact ⟨hself, h⟩
    · have hsingular := Inflection.singular_media (capitalized_studly name) halnum hmedia
      have hform : studly name = "Media" := by
        rw [← h, entityForm, hsingular]
        decide
      rw [hform]
      decide
  · rintro ⟨hself, hstudly⟩
    rw [entityForm, hself, hstudly]

/-- Whether the singular of a capitalised name is the name itself is seen from its lower case, but
for the spelling of the noun that is its own plural. -/
theorem singular_studly_iff (name : Text) :
    Inflection.singular (studly name) = studly name ↔
      studly name = "Media" ∨ Inflection.LooksSingular (lower (studly name)) := by
  have halnum := studly_alnum name
  have hsmall := small_map_lowerAscii halnum
  have hcongr := Inflection.lower_singular_congr halnum (Inflection.alnum_of_small hsmall)
    (Inflection.map_lowerAscii_of_small hsmall).symm
  rw [Inflection.map_lowerAscii_of_small (Inflection.singular_small hsmall)] at hcongr
  rw [lower_of_alnum halnum]
  constructor
  · intro h
    rw [h, eq_comm, Inflection.singular_eq_self_iff hsmall] at hcongr
    refine hcongr.imp_left fun hmedia => ?_
    rw [← h, Inflection.singular_media (capitalized_studly name) halnum hmedia]
  · rintro (hmedia | hlooks)
    · rw [hmedia]
      decide
    · have hself := (Inflection.singular_eq_self_iff hsmall).mpr (Or.inr hlooks)
      rw [hself] at hcongr
      refine (Inflection.singular_eq_self_or halnum hcongr).resolve_right fun hmedia => ?_
      rw [hmedia] at hlooks
      exact hlooks.1 ("media", "media") (by decide) rfl

/-- The form of a plural of the table is the capitalised noun, in whatever case it is written. -/
theorem entityForm_of_plural {pair : Text × Text} (hpair : pair ∈ Inflection.irregularNouns)
    (h : lower name = pair.2) : entityForm name = capitalize pair.1 := by
  have htable : ∀ pair ∈ Inflection.irregularNouns, pair.2 ≠ [] ∧
      Inflection.irregularSingular? pair.2 = some pair.1 ∧
        studly pair.1 = capitalize pair.1 ∧ studly (capitalize pair.1) = capitalize pair.1 := by
    decide
  obtain ⟨hnil, hone, hstudly, hagain⟩ := htable pair hpair
  have hne : name ≠ [] := by
    rintro rfl
    exact hnil h.symm
  have hsingular : Inflection.singular name = Inflection.matchCase name pair.1 := by
    rw [Inflection.singular, if_neg hne]
    simp only [h, hone]
  rw [entityForm, hsingular]
  rcases Inflection.matchCase_cases name pair.1 with hcase | hcase
  · rw [hcase, hstudly]
  · rw [hcase, hagain]

theorem media_mem : (("media", "media") : Text × Text) ∈ Inflection.irregularNouns := by decide

/-- For a name of letters and digits that is no plural of the table with an `s` behind it. -/
theorem singular_entityForm (h : ∀ c ∈ name, isAsciiAlnum c = true)
    (hplural : ∀ pair ∈ Inflection.irregularNouns, lower name ≠ pair.2 ++ "s") :
    Inflection.singular (entityForm name) = entityForm name := by
  have hsmall := small_map_lowerAscii h
  rw [← lower_of_alnum h] at hsmall
  refine (singular_studly_iff (Inflection.singular name)).mpr ?_
  rw [← entityForm, lower_entityForm h]
  rcases Inflection.looksSingular_singular hsmall with hlooks | hmedia | ⟨pair, hpair, heq, -⟩
  · exact Or.inr hlooks
  · refine Or.inl ?_
    rw [entityForm_of_plural media_mem hmedia]
    decide
  · exact absurd heq (hplural pair hpair)

/-- The second form of a name of letters and digits stays. -/
theorem entityForm_second (h : ∀ c ∈ name, isAsciiAlnum c = true) :
    entityForm (entityForm (entityForm name)) = entityForm (entityForm name) := by
  have hsmall := small_map_lowerAscii h
  rw [← lower_of_alnum h] at hsmall
  rcases Inflection.looksSingular_singular hsmall with hlooks | hmedia | ⟨pair, hpair, -, hplural⟩
  · -- The first form is singular already, so the second one only joins words.
    rw [← lower_entityForm h] at hlooks
    have hself := (singular_studly_iff (Inflection.singular name)).mpr (Or.inr hlooks)
    have hsecond : entityForm (entityForm name) = studly (entityForm name) := congrArg studly hself
    rw [hsecond]
    exact entityForm_of_eq_studly hsecond
  · rw [entityForm_of_plural media_mem hmedia]
    decide
  · have htable : ∀ pair ∈ Inflection.irregularNouns,
        entityForm (capitalize pair.1) = capitalize pair.1 := by decide
    rw [← lower_entityForm h] at hplural
    rw [entityForm_of_plural hpair hplural, htable pair hpair]

/-- Taking the form of a name a second time changes nothing exactly if the form looks singular and
has no acronym. Where the name has nothing but letters and digits, only an acronym or an `s` behind
a plural of the table stands against it. The third form of every name stays. -/
theorem entityForm_settles (name : Text) :
    (entityForm (entityForm name) = entityForm name ↔
      (entityForm name = "Media" ∨ Inflection.LooksSingular (lower (entityForm name))) ∧
        hasAcronym (entityForm name) = false) ∧
    ((∀ c ∈ name, isAsciiAlnum c = true) →
      (∀ pair ∈ Inflection.irregularNouns, lower name ≠ pair.2 ++ "s") →
        (entityForm (entityForm name) = entityForm name ↔
          hasAcronym (entityForm name) = false)) ∧
    entityForm (entityForm (entityForm (entityForm name))) =
      entityForm (entityForm (entityForm name)) := by
  have hstudly := entityForm_studly_iff (Inflection.singular name)
  refine ⟨?_, fun halnum hplural => ?_, entityForm_second (studly_alnum (Inflection.singular name))⟩
  · rw [singular_studly_iff] at hstudly
    exact hstudly
  · exact hstudly.trans (and_iff_right (singular_entityForm halnum hplural))

/-- A name of two words in the plural. -/
theorem blogPosts_settle :
    (∀ c ∈ ("blogPosts" : Text), isAsciiAlnum c = true) ∧
      (∀ pair ∈ Inflection.irregularNouns, lower "blogPosts" ≠ pair.2 ++ "s") ∧
        entityForm "blogPosts" = "BlogPost" ∧
          entityForm (entityForm "blogPosts") = entityForm "blogPosts" := by
  have halnum : ∀ c ∈ ("blogPosts" : Text), isAsciiAlnum c = true :=
    List.all_eq_true.mp (by decide)
  have hplural : ∀ pair ∈ Inflection.irregularNouns, lower "blogPosts" ≠ pair.2 ++ "s" := by decide
  have hform : entityForm "blogPosts" = "BlogPost" := by decide
  have hacronym : hasAcronym (entityForm "blogPosts") = false := by
    rw [hform]
    decide
  exact ⟨halnum, hplural, hform,
    ((entityForm_settles "blogPosts").2.1 halnum hplural).mpr hacronym⟩

/-- A plural that shows when its underscore is gone, two words that become an acronym, and a plural
of the table behind an `s`. -/
theorem forms_unsettled :
    entityForm "posts_" = "Posts" ∧ entityForm (entityForm "posts_") = "Post" ∧
      entityForm "x_y" = "XY" ∧ entityForm (entityForm "x_y") = "Xy" ∧
        entityForm "datas" = "Data" ∧ entityForm (entityForm "datas") = "Datum" := by
  decide

end ApiScaffold
