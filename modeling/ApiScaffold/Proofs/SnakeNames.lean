import ApiScaffold.Proofs.CapitalizedNames
import ApiScaffold.Proofs.NameGrammars
import Mathlib.Data.List.DropRight

/-!
# Names in snake case

Snake case is made by marking the name, character by character, and tidying up afterwards; the
words of a name are found in another way. All the same the marks stand between words only, and
they stand wherever small letters would hide that a word ends. So the name in snake case has the
words of the name, and whatever is built from words can be built from it. The names that are made
so form a language, and snake case leaves every name of it alone.
-/
namespace ApiScaffold

open Text
open scoped Computability

namespace Text

variable {sep : Char} {p : Char → Bool} {lead body trail t : Text} {pieces : List Text}

theorem strip_append (hlead : ∀ c ∈ lead, p c = true) (htrail : ∀ c ∈ trail, p c = true) :
    strip p (lead ++ body ++ trail) = strip p body := by
  have hleft : stripLeft p (lead ++ body ++ trail) =
      if (stripLeft p body).isEmpty then [] else stripLeft p body ++ trail := by
    unfold stripLeft
    rw [List.append_assoc, List.dropWhile_append_of_pos hlead, List.dropWhile_append,
      List.dropWhile_eq_nil_iff.mpr htrail]
  have hright : ∀ u, stripRight p (u ++ trail) = stripRight p u := by
    intro u
    unfold stripRight
    rw [List.reverse_append, List.dropWhile_append_of_pos (by simpa using htrail)]
  unfold strip
  rw [hleft]
  split_ifs with hempty
  · rw [List.isEmpty_iff.mp hempty]
  · exact hright _

/-- Pieces with separators between them have none outside, unless a piece is empty. -/
theorem stripChar_join (h : ∀ piece ∈ pieces, piece ≠ [] ∧ sep ∉ piece) :
    stripChar sep (join [sep] pieces) = join [sep] pieces := by
  have hne : ∀ {piece : Text} {c : Char}, piece ∈ pieces → c ∈ piece → ¬(c == sep) = true := by
    intro piece c hpiece hc heq
    exact (h piece hpiece).2 (beq_iff_eq.mp heq ▸ hc)
  have hleft : stripLeft (· == sep) (join [sep] pieces) = join [sep] pieces := by
    cases pieces with
    | nil => rfl
    | cons first rest =>
      obtain ⟨c, cs, rfl⟩ := List.exists_cons_of_ne_nil (h first List.mem_cons_self).1
      rw [join_eq_append]
      exact List.dropWhile_cons_of_neg (hne List.mem_cons_self List.mem_cons_self)
  have hright : stripRight (· == sep) (join [sep] pieces) = join [sep] pieces := by
    rcases List.eq_nil_or_concat' pieces with rfl | ⟨front, last, rfl⟩
    · rfl
    · have hlast : last ∈ front ++ [last] := by simp
      obtain ⟨cs, c, rfl⟩ := (List.eq_nil_or_concat' last).resolve_left (h last hlast).1
      rw [join_concat, ← List.append_assoc]
      exact List.rdropWhile_concat_neg _ _ _ (hne hlast (by simp))
  rw [stripChar, strip, hleft, hright]

theorem splitOn_map {f : Char → Char} (h : ∀ c, f c = sep ↔ c = sep) (t : Text) :
    splitOn sep (t.map f) = (splitOn sep t).map (List.map f) := by
  induction t with
  | nil => rfl
  | cons c cs ih =>
    obtain ⟨piece, rest, hsplit⟩ := List.exists_cons_of_ne_nil (splitOn_ne_nil sep cs)
    rw [List.map_cons, splitOn, splitOn, ih, hsplit]
    by_cases hc : c = sep
    · rw [if_pos hc, if_pos ((h c).mpr hc)]
      rfl
    · rw [if_neg hc, if_neg (mt (h c).mp hc)]
      rfl

theorem map_join {f : Char → Char} (h : f sep = sep) (pieces : List Text) :
    (join [sep] pieces).map f = join [sep] (pieces.map (List.map f)) := by
  cases pieces with
  | nil => rfl
  | cons first rest =>
    rw [List.map_cons, join_eq_append, join_eq_append, List.map_append,
      List.map_flatMap, List.flatMap_map]
    simp only [List.map_cons, h]

theorem of_mem_join {c : Char} (h : c ∈ join [sep] pieces) :
    c = sep ∨ ∃ piece ∈ pieces, c ∈ piece := by
  cases pieces with
  | nil => cases h
  | cons first rest =>
    rw [join_eq_append, List.mem_append, List.mem_flatMap] at h
    rcases h with h | ⟨piece, hpiece, h⟩
    · exact Or.inr ⟨first, List.mem_cons_self, h⟩
    · rcases List.mem_cons.mp h with h | h
      · exact Or.inl h
      · exact Or.inr ⟨piece, List.mem_cons_of_mem _ hpiece, h⟩

end Text

namespace Words

variable {c d : Char} {rest t name : Text} {next : Option Char}

/-! ### Tidying up -/

/-- What stands between underscores, empty pieces apart. -/
def chunks (t : Text) : List Text := (splitOn '_' t).filter (· ≠ [])

theorem of_mem_chunks {piece : Text} (h : piece ∈ chunks t) :
    piece ≠ [] ∧ ∀ c ∈ piece, c ≠ '_' ∧ c ∈ t := by
  obtain ⟨hpiece, hne⟩ := List.mem_filter.mp h
  exact ⟨of_decide_eq_true hne, of_mem_splitOn hpiece⟩

/-- Squeezing drops the empty pieces between the first one and the end. -/
theorem squeeze_eq (t : Text) : ∃ first rest trail, splitOn '_' t = first :: rest ∧
    (∀ c ∈ trail, c = '_') ∧
    squeeze t = first ++ (rest.filter (· ≠ [])).flatMap ('_' :: ·) ++ trail := by
  induction t using squeeze.induct with
  | case1 rest ih =>
    obtain ⟨first, pieces, trail, hsplit, htrail, hsqueeze⟩ := ih
    have hfirst : first = [] := (List.cons.inj hsplit).1.symm
    refine ⟨[], first :: pieces, trail, ?_, htrail, ?_⟩
    · rw [splitOn, if_pos rfl, hsplit]
    · rw [squeeze, hsqueeze, hfirst]
      simp
  | case2 c rest hpair ih =>
    obtain ⟨first, pieces, trail, hsplit, htrail, hsqueeze⟩ := ih
    have hcons : squeeze (c :: rest) = c :: squeeze rest := by
      rw [squeeze]
      exact hpair
    by_cases hc : c = '_'
    · -- A single underscore stands in front of a piece, or at the end.
      subst hc
      cases rest with
      | nil => exact ⟨[], [[]], ['_'], rfl, by simp, rfl⟩
      | cons d rest =>
        have hd : d ≠ '_' := fun heq => hpair rest rfl (by rw [heq])
        have hfirst : first ≠ [] := by
          obtain ⟨piece, others, hrest⟩ := List.exists_cons_of_ne_nil (splitOn_ne_nil '_' rest)
          rw [splitOn, if_neg hd, hrest] at hsplit
          exact (List.cons.inj hsplit).1 ▸ List.cons_ne_nil d piece
        refine ⟨[], first :: pieces, trail, ?_, htrail, ?_⟩
        · rw [splitOn, if_pos rfl, hsplit]
        · rw [hcons, hsqueeze]
          simp [hfirst]
    · refine ⟨c :: first, pieces, trail, ?_, htrail, ?_⟩
      · rw [splitOn, if_neg hc, hsplit]
      · rw [hcons, hsqueeze]
        rfl
  | case3 => exact ⟨[], [], [], rfl, by simp, rfl⟩

/-- Underscores that are squeezed and stripped stay between the pieces that are not empty. -/
theorem stripChar_squeeze (t : Text) : stripChar '_' (squeeze t) = join ['_'] (chunks t) := by
  obtain ⟨first, rest, trail, hsplit, htrail, hsqueeze⟩ := squeeze_eq t
  obtain ⟨lead, hlead, heq⟩ : ∃ lead : Text, (∀ c ∈ lead, c = '_') ∧
      squeeze t = lead ++ join ['_'] (chunks t) ++ trail := by
    unfold chunks
    rw [hsplit, hsqueeze]
    by_cases hfirst : first = []
    · rw [hfirst, List.nil_append, List.filter_cons_of_neg (by simp)]
      cases rest.filter (· ≠ []) with
      | nil => exact ⟨[], by simp, rfl⟩
      | cons piece others =>
        exact ⟨['_'], by simp, by rw [join_eq_append]; rfl⟩
    · rw [List.filter_cons_of_pos (by simpa using hfirst), join_eq_append]
      exact ⟨[], by simp, rfl⟩
  have hjoin : stripChar '_' (join ['_'] (chunks t)) = join ['_'] (chunks t) :=
    stripChar_join fun piece hpiece =>
      ⟨(of_mem_chunks hpiece).1, fun h => ((of_mem_chunks hpiece).2 _ h).1 rfl⟩
  rw [heq, stripChar, strip_append (by simpa using hlead) (by simpa using htrail)]
  exact hjoin

/-! ### Words between underscores -/

theorem alnum_underscore : isAsciiAlnum '_' = false := by decide

theorem continues_eq_false (hd : isAsciiAlnum d = false) : continues c d next = false :=
  Bool.eq_false_iff.mpr fun h => Bool.eq_false_iff.mp hd (alnum_of_continues h)

/-- An underscore ends a word. -/
theorem words_append_underscore (a b : Text) : words (a ++ '_' :: b) = words a ++ words b := by
  induction a with
  | nil => exact words_skip alnum_underscore b
  | cons c cs ih =>
    by_cases hc : isAsciiAlnum c = true
    · cases cs with
      | nil =>
        rw [List.singleton_append, words_break hc (continues_eq_false alnum_underscore),
          words_skip alnum_underscore, words_single hc, List.singleton_append]
      | cons d rest =>
        have hnext : continues c d (rest ++ '_' :: b).head? = continues c d rest.head? := by
          cases rest with
          | nil => simp [continues, show isAsciiLower '_' = false by decide]
          | cons e rest => rfl
        rw [List.cons_append] at ih ⊢
        rw [List.cons_append]
        by_cases hd : continues c d rest.head? = true
        · obtain ⟨word, more, hwords⟩ := exists_words (alnum_of_continues hd) rest
          rw [hwords, List.cons_append] at ih
          rw [words_continue hc (hnext.trans hd) ih, words_continue hc hd hwords]
          rfl
        · rw [Bool.not_eq_true] at hd
          rw [words_break hc (hnext.trans hd), words_break hc hd, ih, List.cons_append]
    · rw [Bool.not_eq_true] at hc
      rw [List.cons_append, words_skip hc, words_skip hc, ih]

theorem words_join (pieces : List Text) : words (join ['_'] pieces) = pieces.flatMap words := by
  induction pieces with
  | nil => rfl
  | cons piece rest ih =>
    by_cases hrest : rest = []
    · rw [hrest, join_single, List.flatMap_cons, List.flatMap_nil, List.append_nil]
    · rw [join_cons piece hrest, List.append_assoc, List.singleton_append,
        words_append_underscore, ih, List.flatMap_cons]

/-- Tidying up keeps the words. -/
theorem words_join_chunks (t : Text) : words (join ['_'] (chunks t)) = words t := by
  have hfilter : ∀ pieces : List Text,
      (pieces.filter (· ≠ [])).flatMap words = pieces.flatMap words := by
    intro pieces
    induction pieces with
    | nil => rfl
    | cons piece rest ih =>
      rw [List.filter_cons]
      split_ifs with hne
      · rw [List.flatMap_cons, List.flatMap_cons, ih]
      · have hnil : piece = [] := by simpa using hne
        rw [ih, hnil]
        rfl
  rw [words_join, chunks, hfilter, ← words_join, join_splitOn]

/-! ### Marks -/

/-- Whether a mark is put between two neighbours, by one rule or the other. -/
def breaks (c d : Char) (next : Option Char) : Bool :=
  endsAcronym c d next || risesToCapital c d next

theorem exists_underscoreBetween (rule : Char → Char → Option Char → Bool) (d : Char)
    (rest : Text) : ∃ more, underscoreBetween rule (d :: rest) = d :: more := by
  cases rest with
  | nil => exact ⟨[], rfl⟩
  | cons e rest =>
    rw [underscoreBetween]
    split_ifs
    · exact ⟨_, rfl⟩
    · exact ⟨_, rfl⟩

/-- The second rule asks for no mark beside those of the first. -/
theorem underscoreBetween_twice (name : Text) :
    underscoreBetween risesToCapital (underscoreBetween endsAcronym name) =
      underscoreBetween breaks name := by
  have hbefore : ∀ c next, risesToCapital c '_' next = false := by
    intro c next
    rw [risesToCapital, show isAsciiUpper '_' = false by decide, Bool.and_false]
  have hafter : ∀ d next, risesToCapital '_' d next = false := fun d next => by
    rw [risesToCapital, show (isAsciiLower '_' || isAsciiDigit '_') = false by decide,
      Bool.false_and]
  induction name with
  | nil => rfl
  | cons c cs ih =>
    cases cs with
    | nil => rfl
    | cons d rest =>
      obtain ⟨more, hmore⟩ := exists_underscoreBetween endsAcronym d rest
      rw [underscoreBetween, underscoreBetween, ← ih, hmore]
      by_cases hends : endsAcronym c d rest.head? = true
      · rw [if_pos hends, if_pos (by rw [breaks, hends, Bool.true_or])]
        simp [underscoreBetween, hbefore, hafter]
      · rw [if_neg hends, underscoreBetween]
        have hrises : breaks c d rest.head? = risesToCapital c d more.head? := by
          rw [breaks, Bool.eq_false_iff.mpr hends, Bool.false_or]
          rfl
        rw [hrises]

/-- A character of a name in snake case. -/
def spelled (c : Char) : Char := lowerAscii (if isAsciiAlnum c then c else '_')

/-- A small letter or a digit. -/
def isSmall (c : Char) : Bool := isAsciiLower c || isAsciiDigit c

theorem spelled_of_alnum (hc : isAsciiAlnum c = true) : spelled c = lowerAscii c := by
  rw [spelled, if_pos hc]

theorem spelled_of_not_alnum (hc : isAsciiAlnum c = false) : spelled c = '_' := by
  rw [spelled, if_neg (by simp [hc])]
  decide

theorem isAsciiLower_lowerAscii_eq (c : Char) : isAsciiLower (lowerAscii c) = isAsciiLetter c := by
  cases hc : isAsciiLetter c with
  | true => exact isAsciiLower_lowerAscii hc
  | false =>
    obtain ⟨hupper, hlower⟩ := Bool.or_eq_false_iff.mp hc
    rw [lowerAscii_of_not_isAsciiUpper (by simp [hupper]), hlower]

/-- A word in small letters goes on where it did, as long as no mark is due. -/
theorem continues_spelled (hc : isAsciiAlnum c = true) (h : breaks c d next = false)
    (next' : Option Char) : continues (spelled c) (spelled d) next' = continues c d next := by
  by_cases hd : isAsciiAlnum d = true
  · rw [spelled_of_alnum hc, spelled_of_alnum hd]
    unfold breaks endsAcronym risesToCapital at h
    unfold continues
    simp only [isAsciiUpper_lowerAscii, isAsciiDigit_lowerAscii, isAsciiLower_lowerAscii_eq,
      isAsciiLetter]
    revert h
    cases isAsciiUpper c <;> cases isAsciiLower c <;> cases isAsciiUpper d <;>
      cases isAsciiLower d <;> cases isAsciiDigit c <;> cases isAsciiDigit d <;>
      cases next.any isAsciiLower <;> simp
  · rw [Bool.not_eq_true] at hd
    rw [spelled_of_not_alnum hd, continues_eq_false alnum_underscore, continues_eq_false hd]

/-- A mark stands where a word ends, in front of a capital. -/
theorem of_breaks (h : breaks c d next = true) :
    isAsciiAlnum c = true ∧ isAsciiUpper d = true ∧ continues c d next = false := by
  unfold breaks endsAcronym risesToCapital at h
  have hd : isAsciiUpper d = true := by
    simp only [Bool.or_eq_true, Bool.and_eq_true] at h
    tauto
  have hlower := isAsciiLower_of_isAsciiUpper hd
  have hdigit := isAsciiDigit_of_isAsciiLetter (c := d) (by rw [isAsciiLetter, hd, Bool.true_or])
  rw [isAsciiAlnum_iff, continues, hd, hlower, hdigit]
  simp only [Bool.and_false, Bool.false_or, Bool.and_true]
  simp only [hd, Bool.and_true, Bool.or_eq_true, Bool.and_eq_true] at h
  rcases h with ⟨hc, hnext⟩ | hc | hc
  · exact ⟨Or.inl (Or.inl hc), trivial, by rw [hnext, Bool.not_true, Bool.and_false]⟩
  · exact ⟨Or.inl (Or.inr hc), trivial, by rw [isAsciiUpper_of_isAsciiLower hc, Bool.false_and]⟩
  · exact ⟨Or.inr hc, trivial, by rw [(not_cased_of_isAsciiDigit hc).1, Bool.false_and]⟩

/-- A mark ends no word that would go on, and without a mark small letters end the same words as
the letters of the name. -/
theorem words_marked (name : Text) :
    words ((underscoreBetween breaks name).map spelled) = words name := by
  have hspelled : ∀ {c}, isAsciiAlnum c = true →
      isAsciiAlnum (spelled c) = true ∧ lowerAscii (spelled c) = lowerAscii c := by
    intro c hc
    rw [spelled_of_alnum hc]
    exact ⟨lowerAscii_alnum hc, lowerAscii_lowerAscii c⟩
  have hskipped : ∀ {c}, isAsciiAlnum c = false → isAsciiAlnum (spelled c) = false := by
    intro c hc
    rw [spelled_of_not_alnum hc]
    exact alnum_underscore
  induction name with
  | nil => rfl
  | cons c cs ih =>
    cases cs with
    | nil =>
      change words [spelled c] = words [c]
      cases hc : isAsciiAlnum c with
      | true => rw [words_single (hspelled hc).1, words_single hc, (hspelled hc).2]
      | false => rw [words_skip (hskipped hc), words_skip hc]
    | cons d rest =>
      rw [underscoreBetween]
      by_cases hbreaks : breaks c d rest.head? = true
      · obtain ⟨hc, -, hends⟩ := of_breaks hbreaks
        rw [if_pos hbreaks, List.map_cons, List.map_cons, spelled_of_not_alnum alnum_underscore,
          words_break (hspelled hc).1 (continues_eq_false alnum_underscore),
          words_skip alnum_underscore, ih, (hspelled hc).2, words_break hc hends]
      · rw [if_neg hbreaks, List.map_cons]
        cases hc : isAsciiAlnum c with
        | false => rw [words_skip (hskipped hc), words_skip hc, ih]
        | true =>
          obtain ⟨more, hmore⟩ := exists_underscoreBetween breaks d rest
          rw [hmore, List.map_cons] at ih ⊢
          have hsame := continues_spelled hc (Bool.eq_false_iff.mpr hbreaks)
            (more.map spelled).head?
          cases hgoes : continues c d rest.head? with
          | true =>
            obtain ⟨word, others, hwords⟩ := exists_words (alnum_of_continues hgoes) rest
            rw [words_continue (hspelled hc).1 (hsame.trans hgoes) (ih.trans hwords),
              words_continue hc hgoes hwords, (hspelled hc).2]
          | false =>
            rw [words_break (hspelled hc).1 (hsame.trans hgoes), words_break hc hgoes, ih,
              (hspelled hc).2]

/-! ### Snake case -/

theorem lowerAscii_eq_underscore (c : Char) : lowerAscii c = '_' ↔ c = '_' := by
  constructor
  · intro h
    by_cases hc : isAsciiUpper c = true
    · have halnum := lowerAscii_alnum (c := c) (by simp [isAsciiAlnum, isAsciiLetter, hc])
      rw [h, alnum_underscore] at halnum
      cases halnum
    · rwa [lowerAscii_of_not_isAsciiUpper hc] at h
  · rintro rfl
    decide

/-- Snake case joins what stands between the marks. -/
theorem snake_eq (name : Text) :
    snake name = join ['_'] (chunks ((underscoreBetween breaks name).map spelled)) := by
  have hmap : (underscoreBetween breaks name).map spelled =
      ((underscoreBetween breaks name).map fun c => if isAsciiAlnum c then c else '_').map
        lowerAscii := by
    rw [List.map_map]
    rfl
  have hchunks : ∀ t : Text, chunks (t.map lowerAscii) = (chunks t).map (List.map lowerAscii) := by
    intro t
    rw [chunks, splitOn_map lowerAscii_eq_underscore, List.filter_map]
    congr 1
    refine List.filter_congr fun piece _ => ?_
    simp
  rw [hmap, hchunks, ← map_join rfl, ← stripChar_squeeze, ← underscoreBetween_twice]
  rfl

/-- Small letters and digits, at least one. -/
def smallWords : Language Char :=
  (Grammar.range 'a' 'z' + Grammar.range '0' '9') *
    (Grammar.range 'a' 'z' + Grammar.range '0' '9')∗

def snakeNames : Language Char := Grammar.separated '_' smallWords

theorem mem_smallWords : t ∈ smallWords ↔ t ≠ [] ∧ ∀ c ∈ t, isSmall c = true := by
  have hsmall : Grammar.range 'a' 'z' + Grammar.range '0' '9' = Grammar.oneOf isSmall := by
    rw [Grammar.range_eq_oneOf, Grammar.range_eq_oneOf, Grammar.oneOf_add]
    rfl
  rw [smallWords, hsmall]
  cases t with
  | nil => exact iff_of_false Grammar.nil_notMem_oneOf_mul fun h => h.1 rfl
  | cons c rest =>
    rw [Grammar.cons_mem_oneOf_mul_kstar, List.forall_mem_cons,
      and_iff_right (List.cons_ne_nil _ _)]

theorem isSmall_spelled (c : Char) : spelled c = '_' ∨ isSmall (spelled c) = true := by
  cases hc : isAsciiAlnum c with
  | false => exact Or.inl (spelled_of_not_alnum hc)
  | true =>
    rw [spelled_of_alnum hc, isSmall, isAsciiLower_lowerAscii_eq, isAsciiDigit_lowerAscii]
    exact Or.inr hc

theorem isAsciiUpper_of_isSmall (h : isSmall c = true) : isAsciiUpper c = false := by
  rcases Bool.or_eq_true_iff.mp h with hlower | hdigit
  · exact isAsciiUpper_of_isAsciiLower hlower
  · exact (not_cased_of_isAsciiDigit hdigit).1

theorem spelled_of_isSmall (h : isSmall c = true) : spelled c = c := by
  have halnum : isAsciiAlnum c = true := by
    rw [isAsciiAlnum, isAsciiLetter, Bool.or_assoc, ← isSmall, h, Bool.or_true]
  rw [spelled_of_alnum halnum,
    lowerAscii_of_not_isAsciiUpper (Bool.eq_false_iff.mp (isAsciiUpper_of_isSmall h))]

theorem snake_mem (name : Text) : snake name = [] ∨ snake name ∈ snakeNames := by
  rw [snake_eq]
  by_cases hnil : chunks ((underscoreBetween breaks name).map spelled) = []
  · rw [hnil]
    exact Or.inl rfl
  · refine Or.inr (Grammar.mem_separated_iff_exists.mpr ⟨_, hnil, fun piece hpiece => ?_, rfl⟩)
    obtain ⟨hne, hchars⟩ := of_mem_chunks hpiece
    refine mem_smallWords.mpr ⟨hne, fun c hc => ?_⟩
    obtain ⟨hsep, hmem⟩ := hchars c hc
    obtain ⟨d, -, rfl⟩ := List.mem_map.mp hmem
    exact (isSmall_spelled d).resolve_left hsep

theorem underscoreBetween_eq_self {rule : Char → Char → Option Char → Bool}
    (h : ∀ c, ∀ d ∈ t, ∀ next, rule c d next = false) : underscoreBetween rule t = t := by
  induction t with
  | nil => rfl
  | cons c cs ih =>
    have hcs : ∀ b, ∀ d ∈ cs, ∀ next, rule b d next = false := fun b d hd =>
      h b d (List.mem_cons_of_mem c hd)
    cases cs with
    | nil => rfl
    | cons d rest =>
      rw [underscoreBetween, if_neg (by simp [hcs c d List.mem_cons_self]), ih hcs]

/-- Snake case leaves the names of its language alone. -/
theorem snake_of_mem (h : name ∈ snakeNames) : snake name = name := by
  obtain ⟨pieces, hne, hpieces, hjoin⟩ := Grammar.mem_separated_iff_exists.mp h
  have hchars : ∀ c ∈ name, c = '_' ∨ isSmall c = true := by
    intro c hc
    rcases of_mem_join (hjoin ▸ hc) with hsep | ⟨piece, hpiece, hmem⟩
    · exact Or.inl hsep
    · exact Or.inr ((mem_smallWords.mp (hpieces piece hpiece)).2 c hmem)
  have hmarked : underscoreBetween breaks name = name := by
    refine underscoreBetween_eq_self fun c d hd next => Bool.eq_false_iff.mpr fun hbreaks => ?_
    have hupper := (of_breaks hbreaks).2.1
    rcases hchars d hd with rfl | hsmall
    · cases hupper
    · rw [isAsciiUpper_of_isSmall hsmall] at hupper
      cases hupper
  have hspelled : name.map spelled = name := by
    refine (List.map_congr_left fun c hc => ?_).trans (List.map_id name)
    rcases hchars c hc with rfl | hsmall
    · rfl
    · exact spelled_of_isSmall hsmall
  have hchunks : chunks name = pieces := by
    have hsep : ∀ piece ∈ pieces, '_' ∉ piece := fun piece hpiece hmem =>
      absurd ((mem_smallWords.mp (hpieces piece hpiece)).2 '_' hmem) (by decide)
    rw [chunks, ← hjoin, splitOn_join hsep hne]
    exact List.filter_eq_self.mpr fun piece hpiece =>
      decide_eq_true (mem_smallWords.mp (hpieces piece hpiece)).1
  rw [snake_eq, hmarked, hspelled, hchunks, hjoin]

/-- Snake case keeps the words of a name, and a name in snake case has single underscores between
words of small letters and digits. So making it again changes nothing, and what is made from the
words of a name can be made from its snake case. -/
theorem snake_keeps_words (name : Text) :
    (snake name = [] ∨ snake name ∈ snakeNames) ∧ snake (snake name) = snake name ∧
      words (snake name) = words name ∧ studly (snake name) = studly name ∧
      camel (snake name) = camel name ∧ human (snake name) = human name := by
  have hwords : words (snake name) = words name := by
    rw [snake_eq, words_join_chunks, words_marked]
  have hagain : snake (snake name) = snake name := by
    rcases snake_mem name with hnil | hmem
    · rw [hnil]
      rfl
    · exact snake_of_mem hmem
  refine ⟨snake_mem name, hagain, hwords, ?_, ?_, ?_⟩
  · rw [studly, hwords, studly]
  · rw [camel, hwords, camel]
  · rw [human, hwords, human]

end Words

end ApiScaffold
