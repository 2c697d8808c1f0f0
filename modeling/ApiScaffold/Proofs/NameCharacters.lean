import ApiScaffold.ClassNames
import Mathlib.Data.List.Basic

/-!
# Characters of generated names

Whatever a name looked like, its words and so the classes named after it consist of letters
and digits of ASCII. A class name therefore has neither a slash nor a backslash, and a path or
a qualified name can be taken apart again at its last separator. The paths of generated files
are written out so that this can be used. Nothing here says that a class name is not empty or
begins with a letter.
-/
namespace ApiScaffold

namespace Text

theorem isAsciiUpper_iff (c : Char) : isAsciiUpper c = true ↔ 65 ≤ c.toNat ∧ c.toNat ≤ 90 := by
  simp only [isAsciiUpper, Bool.and_eq_true, decide_eq_true_eq, Char.le_def,
    UInt32.le_iff_toNat_le]
  rfl

theorem isAsciiLower_iff (c : Char) : isAsciiLower c = true ↔ 97 ≤ c.toNat ∧ c.toNat ≤ 122 := by
  simp only [isAsciiLower, Bool.and_eq_true, decide_eq_true_eq, Char.le_def,
    UInt32.le_iff_toNat_le]
  rfl

theorem isAsciiAlnum_iff (c : Char) :
    isAsciiAlnum c = true ↔
      (isAsciiUpper c = true ∨ isAsciiLower c = true) ∨ isAsciiDigit c = true := by
  simp only [isAsciiAlnum, isAsciiLetter, Bool.or_eq_true]

/-- Numbers below the surrogates are numbers of characters. -/
theorem toNat_ofNat {n : Nat} (h : n < 0xD800) : (Char.ofNat n).toNat = n := by
  have hv : n.isValidChar := Or.inl h
  rw [Char.ofNat, dif_pos hv]
  rfl

theorem lowerAscii_alnum {c : Char} (h : isAsciiAlnum c = true) :
    isAsciiAlnum (lowerAscii c) = true := by
  unfold lowerAscii
  split_ifs with hc
  · have hn := (isAsciiUpper_iff c).mp hc
    rw [isAsciiAlnum_iff, isAsciiLower_iff, toNat_ofNat (by omega)]
    exact Or.inl (Or.inr (by omega))
  · exact h

theorem upperAscii_alnum {c : Char} (h : isAsciiAlnum c = true) :
    isAsciiAlnum (upperAscii c) = true := by
  unfold upperAscii
  split_ifs with hc
  · have hn := (isAsciiLower_iff c).mp hc
    rw [isAsciiAlnum_iff, isAsciiUpper_iff, toNat_ofNat (by omega)]
    exact Or.inl (Or.inl (by omega))
  · exact h

/-- What follows the last separator, where the text after it has none. -/
theorem afterLast_append {c : Char} {front last : Text}
    (hfront : front = [] ∨ ∃ f, front = f ++ [c]) (hlast : c ∉ last) :
    afterLast c (front ++ last) = last := by
  have hne : ∀ d ∈ last.reverse, (d != c) = true := by
    intro d hd
    simpa using fun h : d = c => hlast (h ▸ List.mem_reverse.mp hd)
  unfold afterLast
  rw [List.reverse_append, List.takeWhile_append_of_pos hne]
  rcases hfront with rfl | ⟨f, rfl⟩ <;> simp

/-- Texts that end in names without the separator agree only part by part. -/
theorem append_inj_last {c : Char} {front front' last last' : Text}
    (hfront : front = [] ∨ ∃ f, front = f ++ [c])
    (hfront' : front' = [] ∨ ∃ f, front' = f ++ [c])
    (hlast : c ∉ last) (hlast' : c ∉ last') (h : front ++ last = front' ++ last') :
    front = front' ∧ last = last' := by
  have hl : last = last' := by
    rw [← afterLast_append hfront hlast, h, afterLast_append hfront' hlast']
  subst hl
  exact ⟨List.append_cancel_right h, rfl⟩

theorem join_cons {sep : Text} (piece : Text) {rest : List Text} (h : rest ≠ []) :
    join sep (piece :: rest) = piece ++ sep ++ join sep rest := by
  cases rest with
  | nil => exact absurd rfl h
  | cons b rest => exact join_cons_cons sep piece b rest

theorem join_eq_append (sep : Char) (first : Text) (pieces : List Text) :
    join [sep] (first :: pieces) = first ++ pieces.flatMap (sep :: ·) := by
  induction pieces generalizing first with
  | nil => rw [join_single, List.flatMap_nil, List.append_nil]
  | cons next rest ih =>
    rw [join_cons_cons, ih, List.flatMap_cons, List.append_assoc]
    rfl

/-- Joining keeps the last piece apart, behind the others with a separator after each. -/
theorem join_concat (sep last : Text) (pieces : List Text) :
    join sep (pieces ++ [last]) = pieces.flatMap (· ++ sep) ++ last := by
  induction pieces with
  | nil => rfl
  | cons piece rest ih =>
    rw [List.cons_append, join_cons piece (by simp), ih, List.flatMap_cons]
    simp only [List.append_assoc]

end Text

namespace Words

open Text

variable {c d : Char} {cs rest word : Text} {more : List Text}

theorem words_skip (hc : isAsciiAlnum c = false) (cs : Text) : words (c :: cs) = words cs := by
  conv_lhs => unfold words
  rw [if_neg (by simp [hc])]

theorem words_single (hc : isAsciiAlnum c = true) : words [c] = [[lowerAscii c]] := by
  unfold words
  exact if_pos hc

theorem words_break (hc : isAsciiAlnum c = true) (h : continues c d rest.head? = false) :
    words (c :: d :: rest) = [lowerAscii c] :: words (d :: rest) := by
  conv_lhs => unfold words
  rw [if_pos hc]
  cases words (d :: rest) with
  | nil => rfl
  | cons word more => exact if_neg (by simp [h])

theorem words_continue (hc : isAsciiAlnum c = true) (h : continues c d rest.head? = true)
    (hwords : words (d :: rest) = word :: more) :
    words (c :: d :: rest) = (lowerAscii c :: word) :: more := by
  conv_lhs => unfold words
  rw [if_pos hc, hwords]
  exact if_pos h

/-- A character is skipped, opens a word, or is put in front of the first word of the rest. -/
theorem words_cons (c : Char) (cs : Text) :
    isAsciiAlnum c = false ∧ words (c :: cs) = words cs ∨
    isAsciiAlnum c = true ∧ words (c :: cs) = [lowerAscii c] :: words cs ∨
    isAsciiAlnum c = true ∧ ∃ d rest word more, cs = d :: rest ∧
      continues c d rest.head? = true ∧ words cs = word :: more ∧
      words (c :: cs) = (lowerAscii c :: word) :: more := by
  cases hc : isAsciiAlnum c with
  | false => exact Or.inl ⟨rfl, words_skip hc cs⟩
  | true =>
    refine Or.inr ?_
    cases cs with
    | nil => exact Or.inl ⟨rfl, words_single hc⟩
    | cons d rest =>
      cases hcd : continues c d rest.head? with
      | false => exact Or.inl ⟨rfl, words_break hc hcd⟩
      | true =>
        cases hwords : words (d :: rest) with
        | nil =>
          refine Or.inl ⟨rfl, ?_⟩
          unfold words
          rw [if_pos hc, hwords]
        | cons word more =>
          exact Or.inr ⟨rfl, d, rest, word, more, rfl, hcd, rfl, words_continue hc hcd hwords⟩

theorem words_alnum (name : Text) :
    ∀ word ∈ words name, ∀ c ∈ word, isAsciiAlnum c = true := by
  induction name with
  | nil => simp [words]
  | cons c cs ih =>
    rcases words_cons c cs with ⟨-, h⟩ | ⟨hc, h⟩ | ⟨hc, -, -, word, more, -, -, hcs, h⟩
    · rwa [h]
    · rw [h]
      exact List.forall_mem_cons.mpr
        ⟨List.forall_mem_singleton.mpr (lowerAscii_alnum hc), ih⟩
    · rw [hcs] at ih
      obtain ⟨hword, hmore⟩ := List.forall_mem_cons.mp ih
      rw [h]
      exact List.forall_mem_cons.mpr
        ⟨List.forall_mem_cons.mpr ⟨lowerAscii_alnum hc, hword⟩, hmore⟩

theorem capitalize_alnum {word : Text} (h : ∀ c ∈ word, isAsciiAlnum c = true) :
    ∀ c ∈ capitalize word, isAsciiAlnum c = true := by
  cases word with
  | nil => exact h
  | cons d rest =>
    have hd := List.forall_mem_cons.mp h
    exact List.forall_mem_cons.mpr ⟨upperAscii_alnum hd.1, hd.2⟩

theorem studly_alnum (name : Text) : ∀ c ∈ studly name, isAsciiAlnum c = true := by
  intro c hc
  obtain ⟨piece, hpiece, hcp⟩ := List.mem_flatten.mp hc
  obtain ⟨word, hword, rfl⟩ := List.mem_map.mp hpiece
  exact capitalize_alnum (words_alnum name word hword) c hcp

end Words

open Text

theorem isIdentifierChar_of_isIdentifierStart {c : Char} (h : isIdentifierStart c = true) :
    isIdentifierChar c = true := by
  simp only [isIdentifierStart, isIdentifierChar, isAsciiAlnum, Bool.or_eq_true] at h ⊢
  tauto

/-- An identifier is told by its first character and by the characters that it is made of. -/
theorem isIdentifier_iff {t : Text} :
    isIdentifier t = true ↔
      t.head?.any isIdentifierStart = true ∧ ∀ c ∈ t, isIdentifierChar c = true := by
  cases t with
  | nil => simp [isIdentifier]
  | cons c rest =>
    have hstart := isIdentifierChar_of_isIdentifierStart (c := c)
    simp only [isIdentifier, Bool.and_eq_true, List.all_eq_true, List.head?_cons, Option.any_some,
      List.forall_mem_cons]
    tauto

/-- A class name is made of a capitalised name and an ending, so a separator that the ending
does not have is not in it. -/
theorem not_mem_studly_append {c : Char} (hc : isAsciiAlnum c = false) (name : Text)
    {ending : Text} (h : c ∉ ending) : c ∉ Words.studly name ++ ending := by
  intro hmem
  rcases List.mem_append.mp hmem with hmem | hmem
  · have := Words.studly_alnum name c hmem
    simp [hc] at this
  · exact h hmem

theorem Controller.slash_not_mem_className (c : Controller) : '/' ∉ c.className :=
  not_mem_studly_append (by decide) _ (by decide)

theorem Controller.backslash_not_mem_className (c : Controller) : '\\' ∉ c.className :=
  not_mem_studly_append (by decide) _ (by decide)

/-- A controller is named by its namespace and its class, both as they are. -/
theorem Controller.qualifiedName_inj {c d : Controller} :
    c.qualifiedName = d.qualifiedName ↔ c.space = d.space ∧ c.className = d.className := by
  constructor
  · intro h
    have hs := append_inj_last (c := '\\') (Or.inr ⟨c.space, rfl⟩) (Or.inr ⟨d.space, rfl⟩)
      c.backslash_not_mem_className d.backslash_not_mem_className h
    exact ⟨List.append_cancel_right hs.1, hs.2⟩
  · rintro ⟨hs, hc⟩
    simp only [qualifiedName, hs, hc]

namespace ClassNames

/-- The directories of a namespace below that of all controllers, a slash after each. -/
def folder (space : Text) : Text :=
  ((splitOn '\\' space).filter (· ≠ [])).flatMap (· ++ ("/" : Text))

theorem folder_nil_or_slash (space : Text) :
    folder space = [] ∨ ∃ front, folder space = front ++ ['/'] := by
  unfold folder
  rcases List.eq_nil_or_concat ((splitOn '\\' space).filter (· ≠ [])) with h | ⟨rest, last, h⟩
  · exact Or.inl (by rw [h]; rfl)
  · refine Or.inr ⟨rest.flatMap (· ++ ("/" : Text)) ++ last, ?_⟩
    rw [h]
    simp

theorem controllerPath_eq (s : Settings) (space cls : Text) :
    controllerPath s space cls =
      stripChar '/' s.appPath ++ "/" ++ ("Http/Controllers" ++ "/" ++
        ((folder space ++ cls) ++ ".php")) := by
  unfold controllerPath appPath folder
  rw [join_cons _ (by simp), join_cons _ (by simp), join_concat]
  simp only [List.append_assoc]

theorem dataPath_eq (s : Settings) (name : Text) :
    dataPath s name =
      stripChar '/' s.appPath ++ "/" ++ ("Data" ++ "/" ++ (dataClass name ++ ".php")) := rfl

end ClassNames

end ApiScaffold
