import ApiScaffold.Proofs.ShorthandColumns
import Mathlib.Data.List.Perm.Basic

/-!
# Shorthand in another order

The words of a shorthand tell what they tell on their own, and a second type is refused wherever it
stands. That a type is there is seen by its name, though, and a word that begins with a colon is a
type without a name: behind one any other type is still accepted, while before one it is not. The
main theorem says exactly when the order of the words matters, which is when there is such a word
beside another type that makes a difference. Modifiers that stand twice are not covered, since of
two arguments of one modifier the later one counts.
-/
namespace ApiScaffold

open Text

/-! ## Words of a text -/

namespace Text

/-- A text that is one word: not empty and without a blank. -/
def IsWord (word : Text) : Prop := word ≠ [] ∧ ∀ c ∈ word, isBlank c = false

theorem tokens_cons (c : Char) (cs : Text) : tokens (c :: cs) =
    if isBlank c then tokens cs
    else
      match cs, tokens cs with
      | d :: _, piece :: rest => if isBlank d then [c] :: piece :: rest else (c :: piece) :: rest
      | _, rest => [c] :: rest := rfl

/-- A word is found again in front of the end of the text or of a blank. -/
theorem tokens_append {word : Text} (h : IsWord word) {tail : Text}
    (htail : ∀ c ∈ tail.head?, isBlank c = true) : tokens (word ++ tail) = word :: tokens tail := by
  obtain ⟨hsome, hchars⟩ := h
  induction word with
  | nil => exact absurd rfl hsome
  | cons c rest ih =>
    obtain ⟨hc, hrest⟩ := List.forall_mem_cons.mp hchars
    cases rest with
    | nil =>
      cases tail with
      | nil =>
        rw [List.append_nil, tokens_cons, if_neg (by simp [hc])]
      | cons b tail =>
        have hb : isBlank b = true := htail b rfl
        rw [List.singleton_append, tokens_cons, if_neg (by simp [hc])]
        cases tokens (b :: tail) <;> simp [hb]
    | cons d rest =>
      have hd : isBlank d = false := hrest d List.mem_cons_self
      rw [List.cons_append, tokens_cons, if_neg (by simp [hc]), ih (List.cons_ne_nil d rest) hrest]
      simp [hd]

theorem isWord_of_mem_tokens {t word : Text} (h : word ∈ tokens t) : IsWord word := by
  induction t generalizing word with
  | nil => cases h
  | cons c cs ih =>
    rw [tokens_cons] at h
    by_cases hc : isBlank c = true
    · rw [if_pos hc] at h
      exact ih h
    rw [if_neg hc] at h
    have hsingle : IsWord [c] := ⟨List.cons_ne_nil c [], by simpa using hc⟩
    cases cs with
    | nil =>
      rw [List.mem_singleton.mp h]
      exact hsingle
    | cons d rest =>
      cases htokens : tokens (d :: rest) with
      | nil =>
        rw [htokens] at h
        rw [List.mem_singleton.mp h]
        exact hsingle
      | cons piece more =>
        rw [htokens] at h ih
        dsimp only at h
        split_ifs at h
        · rcases List.mem_cons.mp h with rfl | h
          · exact hsingle
          · exact ih h
        · rcases List.mem_cons.mp h with rfl | h
          · obtain ⟨-, hpiece⟩ := ih List.mem_cons_self
            exact ⟨List.cons_ne_nil c piece,
              List.forall_mem_cons.mpr ⟨Bool.eq_false_iff.mpr hc, hpiece⟩⟩
          · exact ih (List.mem_cons_of_mem _ h)

/-- Words that are joined by spaces are found again. -/
theorem tokens_join {words : List Text} (h : ∀ word ∈ words, IsWord word) :
    tokens (join " " words) = words := by
  have hblank : isBlank ' ' = true := rfl
  induction words with
  | nil => rfl
  | cons word rest ih =>
    obtain ⟨hword, hrest⟩ := List.forall_mem_cons.mp h
    cases rest with
    | nil =>
      have hlast : tokens (word ++ []) = word :: tokens [] := tokens_append hword (by simp)
      rwa [List.append_nil] at hlast
    | cons next more =>
      have hjoin : join " " (word :: next :: more) =
          word ++ ' ' :: join " " (next :: more) := by
        simp [join_cons_cons]
      have hskip : tokens (' ' :: join " " (next :: more)) = tokens (join " " (next :: more)) := by
        rw [tokens_cons, if_pos hblank]
      rw [hjoin, tokens_append hword (by simpa using hblank), hskip, ih hrest]

end Text

namespace Draft

open Word

/-! ## Readings -/

/-- Both are refused, or both are columns that differ at most in the order of their attributes. -/
def SameReading : Except Failure Column → Except Failure Column → Prop
  | .ok c, .ok c' => c.name = c'.name ∧ c.dataType = c'.dataType ∧ c.nullable = c'.nullable ∧
      c.attributes.Perm c'.attributes
  | .error _, .error _ => True
  | _, _ => False

section
variable {r r' r'' : Except Failure Column}

theorem SameReading.symm (h : SameReading r r') : SameReading r' r := by
  cases r with
  | error e => cases r' with
    | error e' => trivial
    | ok c' => exact h
  | ok c => cases r' with
    | error e' => exact h
    | ok c' =>
      obtain ⟨hname, htype, hnullable, hattributes⟩ := h
      exact ⟨hname.symm, htype.symm, hnullable.symm, hattributes.symm⟩

theorem SameReading.trans (h : SameReading r r') (h' : SameReading r' r'') :
    SameReading r r'' := by
  cases r' with
  | error e' =>
    cases r with
    | ok c => exact h.elim
    | error e =>
      cases r'' with
      | ok c'' => exact h'.elim
      | error e'' => trivial
  | ok c' =>
    cases r with
    | error e => exact h.elim
    | ok c =>
      cases r'' with
      | error e'' => exact h'.elim
      | ok c'' =>
        obtain ⟨hname, htype, hnullable, hattributes⟩ := h
        obtain ⟨hname', htype', hnullable', hattributes'⟩ := h'
        exact ⟨hname.trans hname', htype.trans htype', hnullable.trans hnullable',
          hattributes.trans hattributes'⟩

theorem sameReading_of_refused (h : ∀ c, r ≠ .ok c) (h' : ∀ c, r' ≠ .ok c) : SameReading r r' := by
  cases r with
  | ok c => exact absurd rfl (h c)
  | error e =>
    cases r' with
    | ok c' => exact absurd rfl (h' c')
    | error e' => trivial

end

/-! ## Words that need no order -/

/-- The types of a shorthand that have a name. -/
def namedTypes (words : List Text) : List Text :=
  (typeWords words).filter fun word => head word ≠ []

/-- No modifier stands twice. -/
def ModifiersDiffer (words : List Text) : Prop := ((words.filter isModifier).map keyword).Nodup

instance (words : List Text) : Decidable (ModifiersDiffer words) :=
  inferInstanceAs (Decidable (List.Nodup _))

/-- A type without a name, and another type that has one or other arguments. -/
def Clash (word other : Text) : Prop :=
  head word = [] ∧
    (head other ≠ [] ∨ argument word ≠ [] ∧ argument other ≠ [] ∧ told word ≠ told other)

/-- Words of which the types tell the same in any order. -/
structure Settled (words : List Text) : Prop where
  single : (namedTypes words).length ≤ 1
  apart : ∀ word ∈ typeWords words, ∀ other ∈ typeWords words, ¬Clash word other

section
variable {name word other : Text} {words words' : List Text} {founds : List Mapping}
  {found : Mapping}

theorem Settled.perm (h : Settled words) (hperm : words'.Perm words) : Settled words' where
  single := by
    have hnamed : (namedTypes words').Perm (namedTypes words) := (hperm.filter _).filter _
    rw [hnamed.length_eq]
    exact h.single
  apart word hword other hother :=
    h.apart word ((hperm.filter _).mem_iff.mp hword) other ((hperm.filter _).mem_iff.mp hother)

theorem mem_namedTypes : word ∈ namedTypes words ↔ word ∈ typeWords words ∧ head word ≠ [] := by
  simp [namedTypes]

theorem namedTypes_subsingleton (h : (namedTypes words).length ≤ 1)
    (hword : word ∈ namedTypes words) (hother : other ∈ namedTypes words) : word = other := by
  obtain ⟨only, honly⟩ := List.length_eq_one_iff.mp
    (le_antisymm h (List.length_pos_of_mem hword))
  rw [honly, List.mem_singleton] at hword hother
  rw [hword, hother]

theorem Settled.head_eq (h : Settled words) (hword : word ∈ typeWords words)
    (hother : other ∈ typeWords words) : head word = head other := by
  by_cases hnone : head word = []
  · have hfree : head other = [] := by
      by_contra hnamed
      exact h.apart word hword other hother ⟨hnone, Or.inl hnamed⟩
    rw [hnone, hfree]
  · have hnamed : head other ≠ [] := fun hfree =>
      h.apart other hother word hword ⟨hfree, Or.inl hnone⟩
    rw [namedTypes_subsingleton h.single (mem_namedTypes.mpr ⟨hword, hnone⟩)
      (mem_namedTypes.mpr ⟨hother, hnamed⟩)]

theorem Settled.onlyLastNamed (h : Settled words) : OnlyLastNamed words := by
  intro word hword
  by_contra hnamed
  -- Then all types have a name, so there is only one, and that is the last.
  have hall : namedTypes words = typeWords words := by
    refine List.filter_eq_self.mpr fun other hother => ?_
    rw [decide_eq_true_eq, ← h.head_eq (List.dropLast_subset _ hword) hother]
    exact hnamed
  have hsingle := h.single
  rw [hall] at hsingle
  have hlength := List.length_pos_of_mem hword
  rw [List.length_dropLast] at hlength
  omega

theorem namedTypes_length (h : OnlyLastNamed words) : (namedTypes words).length ≤ 1 := by
  unfold OnlyLastNamed at h
  unfold namedTypes
  rcases List.eq_nil_or_concat' (typeWords words) with hnil | ⟨earlier, last, hlast⟩
  · simp [hnil]
  · rw [hlast, List.dropLast_concat] at h
    have hearlier : (earlier.filter fun word => head word ≠ []) = [] :=
      List.filter_eq_nil_iff.mpr fun word hword => by simp [h word hword]
    rw [hlast, List.filter_append, hearlier, List.nil_append]
    exact List.length_filter_le _ _

theorem forall₂_told_iff : (∃ founds,
    List.Forall₂ (fun word found => told word = .ok found) words founds) ↔
      ∀ word ∈ words, WordInOrder word := by
  induction words with
  | nil => simp
  | cons word rest ih =>
    rw [List.forall_mem_cons, ← ih, ← told_ok_iff]
    simp only [List.forall₂_cons_left_iff]
    constructor
    · rintro ⟨-, found, founds, hfound, hfounds, rfl⟩
      exact ⟨⟨found, hfound⟩, founds, hfounds⟩
    · rintro ⟨⟨found, hfound⟩, founds, hfounds⟩
      exact ⟨found :: founds, found, founds, hfound, hfounds, rfl⟩

theorem ofWords_ok_iff : (∃ c, ofWords name words = .ok c) ↔
    name ≠ [] ∧ OnlyLastNamed words ∧ ∀ word ∈ words, WordInOrder word := by
  rw [← forall₂_told_iff]
  simp only [ofWords_eq_ok_iff]
  constructor
  · rintro ⟨c, hname, honly, founds, hfounds, -⟩
    exact ⟨hname, honly, founds, hfounds⟩
  · rintro ⟨hname, honly, founds, hfounds⟩
    exact ⟨_, hname, honly, founds, hfounds, rfl⟩

theorem consistent_told (h : told word = .ok found) : found.Consistent := by
  refine Mapping.Named.consistent ⟨fun p hp => text_of_told h hp, ?_⟩
  unfold told at h
  split_ifs at h
  · cases h
    unfold modification
    split_ifs <;> simp
  · cases h
    exact List.nodup_nil
  · obtain ⟨name, -, v, rfl⟩ | ⟨precision, scale, rfl⟩ := typeArguments_cases h
    · simp
    · simp

theorem argument_of_told {p : Value × Value} (htype : isModifier word = false)
    (h : told word = .ok found) (hp : p ∈ found) : argument word ≠ [] := by
  intro hnone
  unfold told at h
  rw [if_neg (by simp [htype]), if_pos hnone] at h
  cases h
  cases hp

/-- Settled words of different modifiers do not tell two values of one attribute. -/
theorem Settled.consistent (h : Settled words) (hdiffer : ModifiersDiffer words)
    (hfounds : List.Forall₂ (fun word found => told word = .ok found) words founds) :
    Mapping.Consistent founds.flatten := by
  intro p hp q hq hkey
  obtain ⟨word, hword, found, htold, hp⟩ := exists_told_of_mem hfounds hp
  obtain ⟨other, hother, found', htold', hq⟩ := exists_told_of_mem hfounds hq
  suffices hsame : told word = told other by
    rw [hsame] at htold
    obtain rfl := Except.ok.inj (htold.symm.trans htold')
    exact consistent_told htold' p hp q hq hkey
  obtain ⟨hmodifier, -, hp'⟩ | ⟨htype, listed, hlisted, hp'⟩ := key_of_told htold hp
  · obtain ⟨hmodifier', -, hq'⟩ | ⟨-, listed, hlisted, hq'⟩ := key_of_told htold' hq
    · have hkeyword : keyword word = keyword other := by
        rw [hp', hq'] at hkey
        exact Value.text.inj hkey
      rw [List.inj_on_of_nodup_map hdiffer (List.mem_filter.mpr ⟨hword, hmodifier⟩)
        (List.mem_filter.mpr ⟨hother, hmodifier'⟩) hkeyword]
    · rw [hp', hq'] at hkey
      rw [isModifier, Value.text.inj hkey, List.contains_iff_mem] at hmodifier
      exact absurd hmodifier (typeAttributes_disjoint listed hlisted)
  · obtain ⟨hmodifier', -, hq'⟩ | ⟨htype', -⟩ := key_of_told htold' hq
    · rw [hp', hq'] at hkey
      rw [isModifier, ← Value.text.inj hkey, List.contains_iff_mem] at hmodifier'
      exact absurd hmodifier' (typeAttributes_disjoint listed hlisted)
    · have hmem : word ∈ typeWords words := List.mem_filter.mpr ⟨hword, by simp [htype]⟩
      have hmem' : other ∈ typeWords words := List.mem_filter.mpr ⟨hother, by simp [htype']⟩
      by_cases hnone : head word = []
      · by_contra hne
        exact h.apart word hmem other hmem' ⟨hnone, Or.inr
          ⟨argument_of_told htype htold hp, argument_of_told htype' htold' hq, hne⟩⟩
      · have hnamed : head other ≠ [] := h.head_eq hmem hmem' ▸ hnone
        rw [namedTypes_subsingleton h.single (mem_namedTypes.mpr ⟨hmem, hnone⟩)
          (mem_namedTypes.mpr ⟨hmem', hnamed⟩)]

theorem Settled.last_head_eq (h : Settled words) (hperm : words'.Perm words) :
    (typeWords words).getLast?.map head = (typeWords words').getLast?.map head := by
  have htypes : (typeWords words').Perm (typeWords words) := hperm.filter _
  cases hlast : (typeWords words).getLast? with
  | none =>
    rw [List.getLast?_eq_none_iff] at hlast
    rw [hlast] at htypes
    rw [htypes.eq_nil, List.getLast?_nil]
  | some last =>
    have hmem := List.mem_of_getLast? hlast
    cases hlast' : (typeWords words').getLast? with
    | none =>
      rw [List.getLast?_eq_none_iff.mp hlast'] at htypes
      rw [htypes.symm.eq_nil] at hmem
      cases hmem
    | some last' =>
      have hmem' := htypes.mem_iff.mp (List.mem_of_getLast? hlast')
      rw [Option.map_some, Option.map_some, h.head_eq hmem hmem']

/-- Settled words of different modifiers are read alike in every order. -/
theorem Settled.sameReading (h : Settled words) (hdiffer : ModifiersDiffer words)
    (hperm : words'.Perm words) : SameReading (ofWords name words) (ofWords name words') := by
  by_cases haccepted : ∃ c, ofWords name words = .ok c
  · obtain ⟨c, hc⟩ := haccepted
    obtain ⟨hname, honly, founds, hfounds, rfl⟩ := ofWords_eq_ok_iff.mp hc
    obtain ⟨founds', hfounds', hflat⟩ := List.perm_comp_forall₂ hperm hfounds
    have hc' := ofWords_eq_ok_iff.mpr ⟨hname, (h.perm hperm).onlyLastNamed, founds', hfounds', rfl⟩
    have hnullable : words.any isNullable = words'.any isNullable := hperm.symm.any_eq
    have hattributes : (Mapping.ofPairs founds.flatten).Perm (Mapping.ofPairs founds'.flatten) := by
      refine ((h.consistent hdiffer hfounds).ofPairs_perm ?_ hflat.flatten).symm
      intro p hp
      obtain ⟨word, -, found, htold, hmem⟩ := exists_told_of_mem hfounds hp
      exact text_of_told htold hmem
    rw [hc, hc']
    unfold Shorthand.toColumn Shorthand.tellAll
    rw [h.last_head_eq hperm, hnullable]
    exact ⟨rfl, rfl, rfl, hattributes⟩
  · refine sameReading_of_refused (fun c hc => haccepted ⟨c, hc⟩) fun c hc => haccepted ?_
    obtain ⟨hname, -, hread⟩ := ofWords_ok_iff.mp ⟨c, hc⟩
    exact ofWords_ok_iff.mpr
      ⟨hname, h.onlyLastNamed, fun word hword => hread word (hperm.mem_iff.mpr hword)⟩

/-! ## Words of which the order matters -/

/-- Words that are accepted in some order, with a type without a name that another type clashes
with. -/
structure OrderMatters (name : Text) (words : List Text) : Prop where
  name_ne : name ≠ []
  readable : ∀ word ∈ words, WordInOrder word
  single : (namedTypes words).length ≤ 1
  clash : ∃ word ∈ typeWords words, ∃ other ∈ typeWords words, Clash word other

theorem settled_or_orderMatters {c : Column} (hperm : words'.Perm words)
    (h : ofWords name words' = .ok c) : Settled words ∨ OrderMatters name words := by
  obtain ⟨hname, honly, hread⟩ := ofWords_ok_iff.mp ⟨c, h⟩
  have hsingle : (namedTypes words).length ≤ 1 := by
    have hnamed : (namedTypes words').Perm (namedTypes words) := (hperm.filter _).filter _
    rw [← hnamed.length_eq]
    exact namedTypes_length honly
  have hreadable : ∀ word ∈ words, WordInOrder word := fun word hword =>
    hread word (hperm.mem_iff.mpr hword)
  by_cases hclash : ∃ word ∈ typeWords words, ∃ other ∈ typeWords words, Clash word other
  · exact Or.inr ⟨hname, hreadable, hsingle, hclash⟩
  · push Not at hclash
    exact Or.inl ⟨hsingle, hclash⟩

theorem told_unnamed (htype : isModifier word = false) (hfree : head word = [])
    (hargument : argument word ≠ []) : ∃ v, told word = .ok [(.text "arguments", v)] := by
  have hlist : ¬listTypes.contains ([] : Text) = true := by decide
  have hdecimal : ¬decimalTypes.contains ([] : Text) = true := by decide
  have hlength : ¬lengthTypes.contains ([] : Text) = true := by decide
  have hkeyword : keyword word = [] := by
    rw [keyword, hfree]
    rfl
  unfold told typeArguments
  rw [if_neg (by simp [htype]), if_neg hargument, hkeyword]
  dsimp only
  rw [if_neg hlist]
  split
  · exact ⟨_, rfl⟩
  · rw [if_neg hdecimal, if_neg fun hshort => hlength hshort.1]
    exact ⟨_, rfl⟩

/-- What the last word tells is found in the column. -/
theorem exists_column_of_last {key : Text} {v : Value} (hname : name ≠ [])
    (honly : OnlyLastNamed (words ++ [word])) (hread : ∀ word ∈ words, WordInOrder word)
    (htold : told word = .ok [(.text key, v)]) :
    ∃ c, ofWords name (words ++ [word]) = .ok c ∧ (.text key, v) ∈ c.attributes := by
  obtain ⟨founds, hfounds⟩ := forall₂_told_iff.mpr hread
  have hall := List.rel_append hfounds (List.Forall₂.cons htold List.Forall₂.nil)
  have hc := ofWords_eq_ok_iff.mpr ⟨hname, honly, _, hall, rfl⟩
  refine ⟨_, hc, (named_attributes hc).getText?_eq_some_iff.mp ?_⟩
  have hattributes : ((({} : Shorthand).tellAll (words ++ [word])
      (founds ++ [[(Value.text key, v)]])).toColumn name).attributes =
      Mapping.insert (.text key) v (Mapping.ofPairs founds.flatten) := by
    unfold Shorthand.toColumn Shorthand.tellAll Mapping.ofPairs
    rw [List.flatten_append, List.flatten_singleton, Mapping.insertAll_concat]
  rw [hattributes, Mapping.getText?_insert, if_pos (Value.sameKey_text.mpr rfl)]

/-! Two orders tell whether the order matters: the one with a word at the end, and the one with it
at the beginning. -/

theorem erase_append_perm (h : word ∈ typeWords words) :
    (words.erase word ++ [word]).Perm words :=
  (List.perm_append_singleton word _).trans (List.perm_cons_erase (List.mem_of_mem_filter h)).symm

theorem isModifier_of_mem_typeWords (h : word ∈ typeWords words) : isModifier word = false := by
  simpa using (List.mem_filter.mp h).2

theorem typeWords_perm_cons (h : word ∈ typeWords words) :
    (typeWords words).Perm (word :: typeWords (words.erase word)) := by
  rw [← typeWords_cons_type (isModifier_of_mem_typeWords h)]
  exact (List.perm_cons_erase (List.mem_of_mem_filter h)).filter _

theorem onlyLastNamed_append (htype : isModifier word = false)
    (h : ∀ other ∈ typeWords words, head other = []) : OnlyLastNamed (words ++ [word]) := by
  have hend : typeWords (words ++ [word]) = typeWords words ++ [word] := by
    simp [typeWords, htype]
  unfold OnlyLastNamed
  rwa [hend, List.dropLast_concat]

theorem not_onlyLastNamed_cons (htype : isModifier word = false) (hname : head word ≠ [])
    (hother : other ∈ typeWords words) : ¬OnlyLastNamed (word :: words) := by
  unfold OnlyLastNamed
  rw [typeWords_cons_type htype, List.dropLast_cons_of_ne_nil (List.ne_nil_of_mem hother)]
  exact fun h => hname (h word List.mem_cons_self)

/-- Beside the only type with a name all types are without one. -/
theorem head_of_mem_erase (hsingle : (namedTypes words).length ≤ 1) (hword : word ∈ typeWords words)
    (hname : head word ≠ []) : ∀ other ∈ typeWords (words.erase word), head other = [] := by
  have hnames : (namedTypes words).Perm (word :: namedTypes (words.erase word)) := by
    have hfilter := (typeWords_perm_cons hword).filter fun word => head word ≠ []
    rwa [List.filter_cons_of_pos (by simpa using hname)] at hfilter
  have hnone : namedTypes (words.erase word) = [] := by
    have hlength := hnames.length_eq
    rw [List.length_cons] at hlength
    exact List.eq_nil_of_length_eq_zero (by omega)
  intro other hother
  by_contra hnamed
  have hmem := mem_namedTypes.mpr ⟨hother, hnamed⟩
  rw [hnone] at hmem
  cases hmem

theorem OrderMatters.exists_orders (h : OrderMatters name words) :
    ∃ words₁ words₂, words₁.Perm words ∧ words₂.Perm words ∧
      ¬SameReading (ofWords name words₁) (ofWords name words₂) := by
  obtain ⟨hname, hread, hsingle, word, hword, other, hother, hfree, hclash⟩ := h
  by_cases hnamed : ∃ type ∈ typeWords words, head type ≠ []
  · -- Behind the types without names the one with a name is accepted, and in front it is not.
    obtain ⟨type, htype, htypename⟩ := hnamed
    have hmodifier := isModifier_of_mem_typeWords htype
    have hunnamed := head_of_mem_erase hsingle htype htypename
    have hlast := erase_append_perm htype
    obtain ⟨c, hc⟩ : ∃ c, ofWords name (words.erase type ++ [type]) = .ok c :=
      ofWords_ok_iff.mpr ⟨hname, onlyLastNamed_append hmodifier hunnamed,
        fun w hw => hread w (hlast.mem_iff.mp hw)⟩
    have hrefused : ∀ c, ofWords name (type :: words.erase type) ≠ .ok c := by
      intro c hc
      obtain ⟨-, honly, -⟩ := ofWords_ok_iff.mp ⟨c, hc⟩
      have hbeside : word ∈ typeWords (words.erase type) := by
        rcases List.mem_cons.mp ((typeWords_perm_cons htype).mem_iff.mp hword) with rfl | hmem
        · exact absurd hfree htypename
        · exact hmem
      exact not_onlyLastNamed_cons hmodifier htypename hbeside honly
    refine ⟨words.erase type ++ [type], type :: words.erase type, hlast,
      (List.perm_cons_erase (List.mem_of_mem_filter htype)).symm, ?_⟩
    rw [hc]
    cases hfirst : ofWords name (type :: words.erase type) with
    | ok c' => exact absurd hfirst (hrefused c')
    | error e => exact id
  · -- Without names all orders are accepted, and the last arguments count.
    push Not at hnamed
    obtain ⟨hargument, hargument', hdiffer⟩ :=
      hclash.resolve_left fun hother' => hother' (hnamed other hother)
    have hcolumn : ∀ type ∈ typeWords words, argument type ≠ [] → ∃ value c,
        told type = .ok [(.text "arguments", value)] ∧
          ofWords name (words.erase type ++ [type]) = .ok c ∧
            (.text "arguments", value) ∈ c.attributes := by
      intro type htype hargument
      have hmodifier := isModifier_of_mem_typeWords htype
      obtain ⟨value, htold⟩ := told_unnamed hmodifier (hnamed type htype) hargument
      have honly : OnlyLastNamed (words.erase type ++ [type]) :=
        onlyLastNamed_append hmodifier fun w hw =>
          hnamed w ((typeWords_perm_cons htype).mem_iff.mpr (List.mem_cons_of_mem _ hw))
      obtain ⟨c, hc, hmem⟩ := exists_column_of_last hname honly
        (fun w hw => hread w (List.mem_of_mem_erase hw)) htold
      exact ⟨value, c, htold, hc, hmem⟩
    obtain ⟨value, c, htold, hc, hmem⟩ := hcolumn word hword hargument
    obtain ⟨value', c', htold', hc', hmem'⟩ := hcolumn other hother hargument'
    refine ⟨_, _, erase_append_perm hword, erase_append_perm hother, ?_⟩
    rw [hc, hc']
    rintro ⟨-, -, -, hperm⟩
    refine hdiffer ?_
    have hvalue : value = value' :=
      (named_attributes hc').consistent _ (hperm.mem_iff.mp hmem) _ hmem' rfl
    rw [htold, htold', hvalue]

/-- A shorthand in which no modifier stands twice is read alike in every order of its words,
unless they clash. -/
theorem column_reordered_iff {t : Text} (hdiffer : ModifiersDiffer (tokens t)) :
    (∀ t', (tokens t').Perm (tokens t) →
        SameReading (column name (.text t)) (column name (.text t'))) ↔
      ¬OrderMatters name (tokens t) := by
  simp only [column_text]
  constructor
  · intro h hmatters
    obtain ⟨words₁, words₂, hperm₁, hperm₂, hdifferent⟩ := hmatters.exists_orders
    have hread : ∀ words, words.Perm (tokens t) →
        SameReading (ofWords name (tokens t)) (ofWords name words) := by
      intro words hperm
      have hwords : tokens (join " " words) = words :=
        tokens_join fun word hword => isWord_of_mem_tokens (hperm.mem_iff.mp hword)
      have hsame := h (join " " words)
      rw [hwords] at hsame
      exact hsame hperm
    exact hdifferent ((hread words₁ hperm₁).symm.trans (hread words₂ hperm₂))
  · intro h t' hperm
    by_cases hsettled : Settled (tokens t)
    · exact hsettled.sameReading hdiffer hperm
    · have hrefused : ∀ words, words.Perm (tokens t) → ∀ c, ofWords name words ≠ .ok c :=
        fun words hwords c hc => (settled_or_orderMatters hwords hc).elim hsettled h
      exact sameReading_of_refused (hrefused _ (List.Perm.refl _)) (hrefused _ hperm)

end

/-- A type is accepted behind one without a name, and not in front of it. -/
theorem unnamed_type_matters : ModifiersDiffer (tokens ":big string") ∧
    (tokens "string :big").Perm (tokens ":big string") ∧
      column "title" (.text ":big string") = .ok
        { name := "title", dataType := "string", nullable := false,
          attributes := [(.text "arguments", .list [.text "big"])] } ∧
        column "title" (.text "string :big") = .error (.draft (.twoTypes "title" "string" [])) ∧
          ¬SameReading (column "title" (.text ":big string"))
            (column "title" (.text "string :big")) :=
  ⟨by decide, by decide, rfl, rfl, id⟩

theorem nullable_timestamp_reordered :
    ModifiersDiffer (tokens "nullable timestamp default:now") ∧
      ∀ t', (tokens t').Perm (tokens "nullable timestamp default:now") →
        SameReading (column "seen_at" (.text "nullable timestamp default:now"))
          (column "seen_at" (.text t')) := by
  have hdiffer : ModifiersDiffer (tokens "nullable timestamp default:now") := by decide
  refine ⟨hdiffer, (column_reordered_iff hdiffer).mpr fun hmatters => ?_⟩
  obtain ⟨word, hword, other, -, hfree, -⟩ := hmatters.clash
  have htypes : typeWords (tokens "nullable timestamp default:now") =
      [("timestamp" : Text)] := rfl
  rw [htypes, List.mem_singleton] at hword
  rw [hword] at hfree
  exact absurd hfree (by decide)

end Draft

end ApiScaffold
