import ApiScaffold.Proofs.ConfiguredEnums
import ApiScaffold.Proofs.RepeatedControllers
import Mathlib.Computability.Language
import Mathlib.Data.List.TakeWhile

/-!
# The languages of names

The forms of names as languages, put together from ranges of characters by union, product and
closure. The tests of forms do not work in this way: they look at one character after the other,
and for a form with separators at the pieces between them. Each test accepts one of these
languages and no other text, and a name that is read as a line may have one line feed behind it.
-/
namespace ApiScaffold

open Text
open scoped Computability

namespace Text

variable {c : Char} {t front rest : Text}

theorem cutAt_of_not_mem (h : c ∉ t) : cutAt c t = (t, none) := by
  have hall : ∀ d ∈ t, (d != c) = true := fun d hd => bne_iff_ne.mpr fun heq => h (heq ▸ hd)
  rw [cutAt, List.dropWhile_eq_nil_iff.mpr hall]

theorem cutAt_append (h : c ∉ front) : cutAt c (front ++ c :: rest) = (front, some rest) := by
  have hall : ∀ d ∈ front, (d != c) = true := fun d hd => bne_iff_ne.mpr fun heq => h (heq ▸ hd)
  rw [cutAt, List.dropWhile_append_of_pos hall, List.takeWhile_append_of_pos hall]
  simp

theorem eq_of_cutAt_none (h : cutAt c t = (front, none)) : t = front := by
  unfold cutAt at h
  split at h
  · exact (Prod.mk.inj h).1
  · cases (Prod.mk.inj h).2

theorem dropEnd_concat (t : Text) (c : Char) : dropEnd 1 (t ++ [c]) = t := by
  simp [dropEnd]

end Text

theorem alnum_of_isStudly {t : Text} (h : isStudly t = true) : ∀ c ∈ t, isAsciiAlnum c = true := by
  cases t with
  | nil => cases h
  | cons c rest =>
    obtain ⟨hc, hrest⟩ := Bool.and_eq_true_iff.mp h
    refine List.forall_mem_cons.mpr ⟨?_, List.all_eq_true.mp hrest⟩
    rw [isAsciiAlnum, isAsciiLetter, hc, Bool.true_or, Bool.true_or]

namespace Grammar

/-- The texts of one character between two others in the order of code points. -/
def range (first last : Char) : Language Char := {t | ∃ c, first ≤ c ∧ c ≤ last ∧ t = [c]}

def sign (c : Char) : Language Char := {t | t = [c]}

def letters : Language Char := range 'A' 'Z' + range 'a' 'z'

/-- A letter or an underscore, and then letters, digits and underscores. -/
def identifiers : Language Char :=
  (letters + sign '_') * (letters + range '0' '9' + sign '_')∗

/-- A capital, and then letters and digits. -/
def studlyNames : Language Char := range 'A' 'Z' * (letters + range '0' '9')∗

/-- An identifier, or a capitalised name and an identifier with a dot between them. -/
def columnKeys : Language Char := (1 + studlyNames * sign '.') * identifiers

/-- Texts of a language, one or more, with a separator between them. -/
def separated (sep : Char) (L : Language Char) : Language Char := L * (sign sep * L)∗

def namespaces : Language Char := separated '\\' identifiers

/-- The texts of a language with a line feed behind them. -/
def withLineFeed (L : Language Char) : Language Char := L * sign '\n'

section
variable {p q : Char → Bool} {L : Language Char} {t : Text}

/-! ### Single characters -/

/-- The texts of one character that passes a test. -/
def oneOf (p : Char → Bool) : Language Char := {t | ∃ c, p c = true ∧ t = [c]}

theorem range_eq_oneOf (first last : Char) :
    range first last = oneOf fun c => first ≤ c && c ≤ last := by
  ext t
  change (∃ c, _ ∧ _ ∧ _) ↔ ∃ c, _ ∧ _
  simp [and_assoc]

theorem sign_eq_oneOf (c : Char) : sign c = oneOf (· == c) := by
  ext t
  change t = [c] ↔ ∃ d, _ ∧ _
  simp

theorem oneOf_add (p q : Char → Bool) : oneOf p + oneOf q = oneOf fun c => p c || q c := by
  ext t
  rw [Language.mem_add]
  change (∃ c, _ ∧ _) ∨ (∃ c, _ ∧ _) ↔ ∃ c, _ ∧ _
  simp [or_and_right, exists_or]

theorem mem_oneOf_mul : t ∈ oneOf p * L ↔ ∃ c rest, p c = true ∧ rest ∈ L ∧ t = c :: rest := by
  rw [Language.mem_mul]
  constructor
  · rintro ⟨_, ⟨c, hc, rfl⟩, rest, hrest, rfl⟩
    exact ⟨c, rest, hc, hrest, rfl⟩
  · rintro ⟨c, rest, hc, hrest, rfl⟩
    exact ⟨[c], ⟨c, hc, rfl⟩, rest, hrest, rfl⟩

theorem mem_oneOf_kstar : t ∈ (oneOf p)∗ ↔ ∀ c ∈ t, p c = true := by
  rw [Language.mem_kstar]
  constructor
  · rintro ⟨pieces, rfl, hpieces⟩ c hc
    obtain ⟨piece, hpiece, hmem⟩ := List.mem_flatten.mp hc
    obtain ⟨d, hd, rfl⟩ := hpieces piece hpiece
    rwa [List.mem_singleton.mp hmem]
  · intro h
    refine ⟨t.map fun c => [c], ?_, fun piece hpiece => ?_⟩
    · rw [← List.flatMap_def, List.flatMap_singleton']
    · obtain ⟨c, hc, rfl⟩ := List.mem_map.mp hpiece
      exact ⟨c, h c hc, rfl⟩

/-- A first character of one class and others of another. -/
theorem cons_mem_oneOf_mul_kstar {c : Char} {rest : Text} :
    c :: rest ∈ oneOf p * (oneOf q)∗ ↔ p c = true ∧ ∀ d ∈ rest, q d = true := by
  rw [mem_oneOf_mul]
  constructor
  · rintro ⟨_, _, hc, hrest, heq⟩
    obtain ⟨rfl, rfl⟩ := List.cons.inj heq
    exact ⟨hc, mem_oneOf_kstar.mp hrest⟩
  · rintro ⟨hc, hrest⟩
    exact ⟨c, rest, hc, mem_oneOf_kstar.mpr hrest, rfl⟩

theorem nil_notMem_oneOf_mul : [] ∉ oneOf p * L := by
  rw [mem_oneOf_mul]
  rintro ⟨c, rest, -, -, heq⟩
  cases heq

/-! ### Names -/

theorem letters_eq : letters = oneOf isAsciiLetter := by
  rw [letters, range_eq_oneOf, range_eq_oneOf, oneOf_add]
  rfl

theorem alnum_eq : letters + range '0' '9' = oneOf isAsciiAlnum := by
  rw [letters_eq, range_eq_oneOf, oneOf_add]
  rfl

theorem mem_identifiers : t ∈ identifiers ↔ isIdentifier t = true := by
  have heq : identifiers = oneOf isIdentifierStart * (oneOf isIdentifierChar)∗ := by
    rw [identifiers, alnum_eq, letters_eq, sign_eq_oneOf, oneOf_add, oneOf_add]
    rfl
  rw [heq]
  cases t with
  | nil => exact iff_of_false nil_notMem_oneOf_mul (by decide)
  | cons c rest =>
    rw [cons_mem_oneOf_mul_kstar, isIdentifier, Bool.and_eq_true, List.all_eq_true]

theorem mem_studlyNames : t ∈ studlyNames ↔ isStudly t = true := by
  have hcapital : range 'A' 'Z' = oneOf isAsciiUpper := range_eq_oneOf 'A' 'Z'
  rw [studlyNames, alnum_eq, hcapital]
  cases t with
  | nil => exact iff_of_false nil_notMem_oneOf_mul (by decide)
  | cons c rest =>
    rw [cons_mem_oneOf_mul_kstar, isStudly, Bool.and_eq_true, List.all_eq_true]

theorem mem_mul_sign_mul {c : Char} {M : Language Char} :
    t ∈ L * sign c * M ↔ ∃ a ∈ L, ∃ b ∈ M, t = a ++ c :: b := by
  constructor
  · intro h
    obtain ⟨_, hfront, b, hb, rfl⟩ := Language.mem_mul.mp h
    obtain ⟨a, ha, _, rfl, rfl⟩ := Language.mem_mul.mp hfront
    exact ⟨a, ha, b, hb, List.append_assoc a [c] b⟩
  · rintro ⟨a, ha, b, hb, rfl⟩
    have hmem : a ++ [c] ++ b ∈ L * sign c * M :=
      Language.append_mem_mul (Language.append_mem_mul ha rfl) hb
    rwa [List.append_assoc] at hmem

theorem mem_columnKeys : t ∈ columnKeys ↔ isColumnKey t = true := by
  have hstudly : ∀ {u : Text}, u ∈ studlyNames → '.' ∉ u := by
    intro u hu hmem
    exact absurd (alnum_of_isStudly (mem_studlyNames.mp hu) _ hmem) (by decide)
  have hname : ∀ {u : Text}, u ∈ identifiers → '.' ∉ u := by
    intro u hu hmem
    exact absurd ((isIdentifier_iff.mp (mem_identifiers.mp hu)).2 _ hmem) (by decide)
  rw [columnKeys, add_mul, one_mul, Language.mem_add, mem_mul_sign_mul, isColumnKey]
  constructor
  · rintro (ht | ⟨entity, hentity, name, hn, rfl⟩)
    · rw [cutAt_of_not_mem (hname ht)]
      exact mem_identifiers.mp ht
    · rw [cutAt_append (hstudly hentity)]
      exact Bool.and_eq_true_iff.mpr ⟨mem_studlyNames.mp hentity, mem_identifiers.mp hn⟩
  · intro h
    cases hcut : cutAt '.' t with
    | mk front rest =>
      rw [hcut] at h
      cases rest with
      | none =>
        rw [eq_of_cutAt_none hcut]
        exact Or.inl (mem_identifiers.mpr h)
      | some name =>
        obtain ⟨hentity, hn⟩ := Bool.and_eq_true_iff.mp h
        exact Or.inr ⟨front, mem_studlyNames.mpr hentity, name, mem_identifiers.mpr hn,
          eq_of_cutAt hcut⟩

/-! ### Names with separators -/

theorem mem_kstar_sign_mul {sep : Char} : t ∈ (sign sep * L)∗ ↔
    ∃ pieces : List Text, (∀ piece ∈ pieces, piece ∈ L) ∧ t = pieces.flatMap (sep :: ·) := by
  rw [Language.mem_kstar]
  constructor
  · rintro ⟨tails, rfl, htails⟩
    have hcons : ∀ tail ∈ tails, tail.tail ∈ L ∧ sep :: tail.tail = tail := by
      intro tail htail
      obtain ⟨_, rfl, piece, hpiece, rfl⟩ := Language.mem_mul.mp (htails tail htail)
      exact ⟨hpiece, rfl⟩
    refine ⟨tails.map List.tail, List.forall_mem_map.mpr fun tail h => (hcons tail h).1, ?_⟩
    have hmap : tails.map (fun tail => sep :: tail.tail) = tails :=
      (List.map_congr_left fun tail h => (hcons tail h).2).trans (List.map_id' tails)
    rw [List.flatMap_map, List.flatMap_def, hmap]
  · rintro ⟨pieces, hpieces, rfl⟩
    have hsep : [sep] ∈ sign sep := rfl
    exact ⟨pieces.map (sep :: ·), List.flatMap_def, List.forall_mem_map.mpr fun piece h =>
      Language.append_mem_mul hsep (hpieces piece h)⟩

theorem mem_separated_iff_exists {sep : Char} : t ∈ separated sep L ↔
    ∃ pieces, pieces ≠ [] ∧ (∀ piece ∈ pieces, piece ∈ L) ∧ join [sep] pieces = t := by
  constructor
  · intro h
    obtain ⟨first, hfirst, _, htail, rfl⟩ := Language.mem_mul.mp h
    obtain ⟨rest, hrest, rfl⟩ := mem_kstar_sign_mul.mp htail
    exact ⟨first :: rest, List.cons_ne_nil _ _, List.forall_mem_cons.mpr ⟨hfirst, hrest⟩,
      join_eq_append sep first rest⟩
  · rintro ⟨pieces, hne, hpieces, rfl⟩
    obtain ⟨first, rest, rfl⟩ := List.exists_cons_of_ne_nil hne
    obtain ⟨hfirst, hrest⟩ := List.forall_mem_cons.mp hpieces
    rw [join_eq_append]
    exact Language.append_mem_mul hfirst (mem_kstar_sign_mul.mpr ⟨rest, hrest, rfl⟩)

/-- The pieces between the separators are those that the text is put together from, if no text of
the language holds a separator itself. -/
theorem mem_separated {sep : Char} (hsep : ∀ piece ∈ L, sep ∉ piece) :
    t ∈ separated sep L ↔ ∀ piece ∈ splitOn sep t, piece ∈ L := by
  rw [mem_separated_iff_exists]
  constructor
  · rintro ⟨pieces, hne, hpieces, rfl⟩
    rwa [splitOn_join (fun piece hpiece => hsep piece (hpieces piece hpiece)) hne]
  · intro h
    exact ⟨splitOn sep t, splitOn_ne_nil sep t, h, join_splitOn sep t⟩

theorem mem_namespaces : t ∈ namespaces ↔ isNamespace t = true := by
  have hsep : ∀ piece ∈ identifiers, '\\' ∉ piece := by
    intro piece hpiece hmem
    exact absurd ((isIdentifier_iff.mp (mem_identifiers.mp hpiece)).2 _ hmem) (by decide)
  rw [namespaces, mem_separated hsep, isNamespace, List.all_eq_true]
  exact forall₂_congr fun _ _ => mem_identifiers

/-! ### Names that are read as lines -/

theorem mem_withLineFeed : t ∈ withLineFeed L ↔ ∃ u ∈ L, u ++ ['\n'] = t := by
  rw [withLineFeed, Language.mem_mul]
  constructor
  · rintro ⟨u, hu, _, rfl, rfl⟩
    exact ⟨u, hu, rfl⟩
  · rintro ⟨u, hu, rfl⟩
    exact ⟨u, hu, ['\n'], rfl, rfl⟩

theorem asLine_iff {form : Text → Bool} (hform : ∀ {u}, u ∈ L ↔ form u = true) :
    asLine form t = true ↔ t ∈ L ∨ t ∈ withLineFeed L := by
  rw [asLine, Bool.or_eq_true, Bool.and_eq_true, ← hform, mem_withLineFeed]
  refine or_congr_right ⟨?_, ?_⟩
  · rintro ⟨hends, hdrop⟩
    obtain ⟨u, rfl⟩ := List.isSuffixOf_iff_suffix.mp hends
    refine ⟨u, ?_, rfl⟩
    rwa [hform, ← dropEnd_concat u '\n']
  · rintro ⟨u, hu, rfl⟩
    exact ⟨List.isSuffixOf_iff_suffix.mpr ⟨u, rfl⟩, by rwa [dropEnd_concat, ← hform]⟩

theorem asLine_eq_false_iff {form : Text → Bool} (hform : ∀ {u}, u ∈ L ↔ form u = true) :
    asLine form t = false ↔ t ∉ L ∧ t ∉ withLineFeed L := by
  rw [← Bool.not_eq_true, asLine_iff hform, not_or]

end

end Grammar

end ApiScaffold
