import ApiScaffold.Proofs.SnakeNames

/-!
# Words as a scanner finds them

The words of a name can be found by patterns as well. A scanner goes over the name from the left,
with a blank in the place of whatever is neither a letter nor a digit. Where one of four patterns
matches it takes the match and goes on behind it, and where none does it skips one character. It
turns out that it skips nothing but blanks and that its matches are the words. So the words are the
letters and digits of the name, none of them lost, doubled or moved, and the same is true of the
names that are put together from the words.
-/
namespace ApiScaffold

open Text

namespace Text

theorem alnum_of_isAsciiUpper {c : Char} (h : isAsciiUpper c = true) : isAsciiAlnum c = true :=
  (isAsciiAlnum_iff c).mpr (Or.inl (Or.inl h))

theorem alnum_of_isAsciiLower {c : Char} (h : isAsciiLower c = true) : isAsciiAlnum c = true :=
  (isAsciiAlnum_iff c).mpr (Or.inl (Or.inr h))

theorem toNat_lt_of_alnum {c : Char} (h : isAsciiAlnum c = true) : c.toNat < 128 := by
  rw [isAsciiAlnum_iff, isAsciiUpper_iff, isAsciiLower_iff, isAsciiDigit_iff] at h
  omega

/-- A decimal digit of any script. -/
def isDecimal (c : Char) : Bool := (decimalValue? c).isSome

theorem isDecimal_of_alnum {c : Char} (h : isAsciiAlnum c = true) :
    isDecimal c = isAsciiDigit c := by
  rw [isDecimal, decimalValue?, if_pos (toNat_lt_of_alnum h)]
  cases isAsciiDigit c <;> rfl

theorem isWordChar_of_alnum {c : Char} (h : isAsciiAlnum c = true) : isWordChar c = true := by
  rw [isWordChar, if_pos (toNat_lt_of_alnum h), h, Bool.true_or]

/-- A joined text without its separators is its pieces in a row. -/
theorem filter_join {sep : Char} {pieces : List Text} (h : ∀ piece ∈ pieces, sep ∉ piece) :
    (join [sep] pieces).filter (· ≠ sep) = pieces.flatten := by
  have hkept : ∀ piece ∈ pieces, piece.filter (· ≠ sep) = piece := by
    intro piece hpiece
    apply List.filter_eq_self.mpr
    intro c hc
    exact decide_eq_true fun heq => h piece hpiece (heq ▸ hc)
  cases pieces with
  | nil => rfl
  | cons first rest =>
    obtain ⟨hfirst, hrest⟩ := List.forall_mem_cons.mp hkept
    rw [join_eq_append, List.filter_append, List.filter_flatMap, hfirst, List.flatten_cons,
      List.flatten_eq_flatMap]
    congr 1
    apply List.flatMap_congr
    intro piece hpiece
    rw [List.filter_cons_of_neg (by simp), hrest piece hpiece, id]

end Text

namespace Words

variable {c : Char} {rest t word : Text}

/-! ### Patterns -/

/-- Characters that pass a test, one at least and as many as there are. -/
def run? (p : Char → Bool) (t : Text) : Option Text :=
  if t.head?.any p then some (t.takeWhile p) else none

/-- Small letters, with a capital in front of them if there is one. -/
def lowerWord? : Text → Option Text
  | [] => none
  | c :: rest =>
    (if isAsciiUpper c then (run? isAsciiLower rest).map (c :: ·) else none).or
      (run? isAsciiLower (c :: rest))

/-- Whether capitals may end in front of the text: at a capital with a small letter behind it, at a
digit, and where no word character follows. -/
def endsCapitals : Text → Bool
  | [] => true
  | c :: rest =>
    (isAsciiUpper c && rest.head?.any isAsciiLower) || isDecimal c || !isWordChar c

/-- Capitals up to the last place where they may end. -/
def capitals? : Text → Option Text
  | [] => none
  | c :: rest =>
    if isAsciiUpper c then
      ((capitals? rest).map (c :: ·)).or (if endsCapitals rest then some [c] else none)
    else none

/-- A capital, whatever is behind it. -/
def capital? : Text → Option Text
  | [] => none
  | c :: _ => if isAsciiUpper c then some [c] else none

/-- What the first pattern that matches takes from the front of the text. -/
def wordAt? (t : Text) : Option Text :=
  (lowerWord? t).or ((capitals? t).or ((capital? t).or (run? isDecimal t)))

/-- The matches from the left, each behind the one before it. -/
def scan : Text → List Text
  | [] => []
  | c :: rest =>
    match wordAt? (c :: rest) with
    | some word => word :: scan (rest.drop (word.length - 1))
    | none => scan rest
  termination_by t => t.length
  decreasing_by all_goals simp only [List.length_drop, List.length_cons]; omega

/-- The name with a blank in the place of all that separates words. -/
def blanked (name : Text) : Text := name.map fun c => if isAsciiAlnum c then c else ' '

/-- No letter or digit of ASCII is skipped, whatever stands behind it. -/
theorem wordAt?_isSome (hc : isAsciiAlnum c = true) (rest : Text) :
    (wordAt? (c :: rest)).isSome = true := by
  rw [wordAt?, Option.isSome_or, Option.isSome_or, Option.isSome_or]
  rcases (isAsciiAlnum_iff c).mp hc with (hupper | hlower) | hdigit
  · simp [capital?, hupper]
  · simp [lowerWord?, run?, hlower]
  · simp [run?, isDecimal_of_alnum hc, hdigit]

/-! ### What a pattern takes is a word -/

/-- Letters and digits of ASCII, and blanks. -/
def Plain (t : Text) : Prop := ∀ c ∈ t, isAsciiAlnum c = true ∨ c = ' '

theorem plain_blanked (name : Text) : Plain (blanked name) := by
  intro c hc
  obtain ⟨d, -, rfl⟩ := List.mem_map.mp hc
  split_ifs with hd
  · exact Or.inl hd
  · exact Or.inr rfl

theorem lower_of_plain (h : Plain t) : lower t = t.map lowerAscii := by
  have hchar : ∀ c ∈ t, lowerChar c = [lowerAscii c] := by
    intro c hc
    rcases h c hc with halnum | rfl
    · exact lowerChar_of_alnum halnum
    · decide
  rw [lower, List.flatMap_congr hchar, List.map_eq_flatMap]

/-- The first word of the text is at its front, and the other words are behind it. -/
def Opens (word t : Text) : Prop :=
  ∃ behind, t = word ++ behind ∧ words t = word.map lowerAscii :: words behind

theorem Opens.ne_nil (h : Opens word t) : word ≠ [] := by
  obtain ⟨behind, -, hwords⟩ := h
  have hmem : word.map lowerAscii ∈ words t := by
    rw [hwords]
    exact List.mem_cons_self
  intro hnil
  apply (words_uniform t _ hmem).1
  rw [hnil, List.map_nil]

/-- A run is one word if words go on among its characters and end behind them. -/
theorem words_run {p : Char → Bool} (hp : ∀ d ∈ c :: rest, p d = true → isAsciiAlnum d = true)
    (hcontinues : ∀ d ∈ c :: rest, ∀ e ∈ c :: rest, ∀ next, p d = true →
      continues d e next = p e) (hc : p c = true) :
    words (c :: rest) =
      ((c :: rest).takeWhile p).map lowerAscii :: words ((c :: rest).dropWhile p) := by
  have halnum := hp c List.mem_cons_self hc
  induction rest generalizing c with
  | nil => simp [hc, halnum, words]
  | cons d more ih =>
    have hgoes := hcontinues c List.mem_cons_self d (by simp) more.head? hc
    rw [List.takeWhile_cons_of_pos hc, List.dropWhile_cons_of_pos hc, List.map_cons]
    cases hd : p d with
    | true =>
      have hwords := ih (fun e he => hp e (List.mem_cons_of_mem c he))
        (fun e he f hf => hcontinues e (List.mem_cons_of_mem c he) f (List.mem_cons_of_mem c hf))
        hd (hp d (by simp) hd)
      exact words_continue halnum (hgoes.trans hd) hwords
    | false =>
      rw [words_break halnum (hgoes.trans hd), List.takeWhile_cons_of_neg (by simp [hd]),
        List.dropWhile_cons_of_neg (by simp [hd]), List.map_nil]

theorem of_run? {p : Char → Bool} (h : run? p t = some word) :
    ∃ c rest, t = c :: rest ∧ p c = true ∧ word = t.takeWhile p := by
  unfold run? at h
  split_ifs at h with hhead
  cases t with
  | nil => cases hhead
  | cons c rest => exact ⟨c, rest, rfl, hhead, (Option.some.inj h).symm⟩

theorem opens_lower (h : run? isAsciiLower t = some word) : Opens word t := by
  obtain ⟨c, rest, rfl, hc, rfl⟩ := of_run? h
  refine ⟨_, List.takeWhile_append_dropWhile.symm, words_run ?_ ?_ hc⟩
  · intro d _ hd
    exact alnum_of_isAsciiLower hd
  · intro d _ e _ next hd
    simp [continues, hd, isAsciiUpper_of_isAsciiLower hd, isAsciiDigit_of_isAsciiLower hd]

theorem opens_digits (hplain : Plain t) (h : run? isDecimal t = some word) : Opens word t := by
  have hdecimal : ∀ c ∈ t, isDecimal c = isAsciiDigit c := by
    intro c hc
    rcases hplain c hc with halnum | rfl
    · exact isDecimal_of_alnum halnum
    · decide
  obtain ⟨c, rest, rfl, hc, rfl⟩ := of_run? h
  refine ⟨_, List.takeWhile_append_dropWhile.symm, words_run ?_ ?_ hc⟩
  · intro d hmem hd
    rw [hdecimal d hmem] at hd
    exact (isAsciiAlnum_iff d).mpr (Or.inr hd)
  · intro d hd e he next hdigit
    rw [hdecimal d hd] at hdigit
    obtain ⟨hupper, hlower⟩ := not_cased_of_isAsciiDigit hdigit
    simp [continues, hdecimal e he, hdigit, hupper, hlower]

theorem opens_lowerWord (h : lowerWord? t = some word) : Opens word t := by
  cases t with
  | nil => cases h
  | cons c rest =>
    rw [lowerWord?, Option.or_eq_some_iff] at h
    rcases h with h | ⟨-, h⟩
    · split_ifs at h with hc
      obtain ⟨small, hsmall, rfl⟩ := Option.map_eq_some_iff.mp h
      obtain ⟨d, more, rfl, hd, -⟩ := of_run? hsmall
      obtain ⟨behind, hsplit, hwords⟩ := opens_lower hsmall
      have hletter : isAsciiLetter c = true := by rw [isAsciiLetter, hc, Bool.true_or]
      refine ⟨behind, by rw [hsplit, List.cons_append], ?_⟩
      exact words_continue (alnum_of_isAsciiUpper hc) (continues_of_isAsciiLower hletter hd) hwords
    · exact opens_lower h

/-- A capital is taken together with the capitals that are taken behind it, or else alone where
capitals may end. -/
theorem of_capitals? (h : capitals? (c :: rest) = some word) :
    isAsciiUpper c = true ∧ ((∃ more, capitals? rest = some more ∧ word = c :: more) ∨
      endsCapitals rest = true ∧ word = [c]) := by
  rw [capitals?] at h
  split_ifs at h with hc hends
  · rcases Option.or_eq_some_iff.mp h with h | ⟨-, h⟩
    · obtain ⟨more, hmore, rfl⟩ := Option.map_eq_some_iff.mp h
      exact ⟨hc, Or.inl ⟨more, hmore, rfl⟩⟩
    · exact ⟨hc, Or.inr ⟨hends, (Option.some.inj h).symm⟩⟩
  · rw [Option.or_none] at h
    obtain ⟨more, hmore, rfl⟩ := Option.map_eq_some_iff.mp h
    exact ⟨hc, Or.inl ⟨more, hmore, rfl⟩⟩

/-- No small letter stands behind the first of the capitals that are taken. -/
theorem not_lower_of_capitals? (h : capitals? (c :: rest) = some word) :
    rest.head?.any isAsciiLower = false := by
  cases rest with
  | nil => rfl
  | cons d more =>
    rw [List.head?_cons, Option.any_some, ← Bool.not_eq_true]
    intro hlower
    have hupper := isAsciiUpper_of_isAsciiLower hlower
    have halnum := alnum_of_isAsciiLower hlower
    rcases (of_capitals? h).2 with ⟨others, hothers, -⟩ | ⟨hends, -⟩
    · rw [(of_capitals? hothers).1] at hupper
      cases hupper
    · rw [endsCapitals, hupper, isDecimal_of_alnum halnum, isAsciiDigit_of_isAsciiLower hlower,
        isWordChar_of_alnum halnum] at hends
      cases hends

/-- A capital goes on with a small letter, and with a capital that has none behind it. -/
theorem continues_of_isAsciiUpper (hc : isAsciiUpper c = true) (d : Char) (next : Option Char) :
    continues c d next = (isAsciiLower d || (isAsciiUpper d && !next.any isAsciiLower)) := by
  have hdigit := isAsciiDigit_of_isAsciiLetter (c := c) (by rw [isAsciiLetter, hc, Bool.true_or])
  simp [continues, hc, hdigit, isAsciiLower_of_isAsciiUpper hc]

/-- A word of capitals ends where capitals may end. -/
theorem words_endsCapitals (hplain : Plain rest) (hc : isAsciiUpper c = true)
    (hends : endsCapitals rest = true) : words (c :: rest) = [lowerAscii c] :: words rest := by
  cases rest with
  | nil => exact words_single (alnum_of_isAsciiUpper hc)
  | cons d more =>
    apply words_break (alnum_of_isAsciiUpper hc)
    rcases hplain d List.mem_cons_self with hd | rfl
    · rw [endsCapitals, isDecimal_of_alnum hd, isWordChar_of_alnum hd, Bool.not_true,
        Bool.or_false, Bool.or_eq_true, Bool.and_eq_true] at hends
      rw [continues_of_isAsciiUpper hc]
      rcases hends with ⟨hupper, hlower⟩ | hdigit
      · rw [isAsciiLower_of_isAsciiUpper hupper, hlower, Bool.not_true, Bool.and_false,
          Bool.or_false]
      · obtain ⟨hupper, hlower⟩ := not_cased_of_isAsciiDigit hdigit
        rw [hupper, hlower, Bool.false_and, Bool.or_false]
    · exact continues_eq_false (by decide)

theorem opens_capitals (hplain : Plain t) (h : capitals? t = some word) : Opens word t := by
  induction t generalizing word with
  | nil => cases h
  | cons c rest ih =>
    have hrest : Plain rest := fun d hd => hplain d (List.mem_cons_of_mem c hd)
    obtain ⟨hc, ⟨more, hmore, rfl⟩ | ⟨hends, rfl⟩⟩ := of_capitals? h
    · obtain ⟨behind, hsplit, hwords⟩ := ih hrest hmore
      refine ⟨behind, by rw [hsplit, List.cons_append], ?_⟩
      cases rest with
      | nil => cases hmore
      | cons d others =>
        have hgoes : continues c d others.head? = true := by
          rw [continues_of_isAsciiUpper hc, (of_capitals? hmore).1, not_lower_of_capitals? hmore,
            Bool.not_false, Bool.and_true, Bool.or_true]
        exact words_continue (alnum_of_isAsciiUpper hc) hgoes hwords
    · exact ⟨rest, rfl, words_endsCapitals hrest hc hends⟩

/-- A capital without a small letter behind it is taken with the capitals beside it. -/
theorem capitals?_isSome (hplain : Plain rest) (hc : isAsciiUpper c = true)
    (hnext : rest.head?.any isAsciiLower = false) : (capitals? (c :: rest)).isSome = true := by
  induction rest generalizing c with
  | nil => simp [capitals?, endsCapitals, hc]
  | cons d more ih =>
    rw [capitals?, if_pos hc, Option.isSome_or, Option.isSome_map]
    have hlower : isAsciiLower d = false := hnext
    rcases hplain d List.mem_cons_self with halnum | rfl
    · cases hends : endsCapitals (d :: more) with
      | true => simp
      | false =>
        -- What stands there is one more capital, and no small letter is behind it.
        rw [endsCapitals, isDecimal_of_alnum halnum, Bool.or_eq_false_iff,
          Bool.or_eq_false_iff] at hends
        obtain ⟨⟨hmore, hdigit⟩, -⟩ := hends
        have hd : isAsciiUpper d = true := by
          simpa [isAsciiAlnum_iff, hlower, hdigit] using halnum
        rw [hd, Bool.true_and] at hmore
        rw [ih (fun e he => hplain e (List.mem_cons_of_mem d he)) hd hmore, Bool.true_or]
    · simp [endsCapitals, show isWordChar ' ' = false by decide]

/-- Among letters, digits and blanks no capital is left for the pattern that takes one alone. -/
theorem capital?_eq_none (hplain : Plain t) (hlower : lowerWord? t = none)
    (hcapitals : capitals? t = none) : capital? t = none := by
  cases t with
  | nil => rfl
  | cons c rest =>
    rw [capital?]
    split_ifs with hc
    · exfalso
      cases hnext : rest.head?.any isAsciiLower with
      | true => simp [lowerWord?, run?, hc, hnext] at hlower
      | false =>
        have hrest : Plain rest := fun d hd => hplain d (List.mem_cons_of_mem c hd)
        have hsome := capitals?_isSome hrest hc hnext
        rw [hcapitals] at hsome
        cases hsome
    · rfl

/-- What the first pattern that matches takes is the first word. -/
theorem opens_wordAt (hplain : Plain t) (h : wordAt? t = some word) : Opens word t := by
  rw [wordAt?, Option.or_eq_some_iff, Option.or_eq_some_iff, Option.or_eq_some_iff] at h
  rcases h with h | ⟨hlower, h | ⟨hcapitals, h | ⟨-, h⟩⟩⟩
  · exact opens_lowerWord h
  · exact opens_capitals hplain h
  · rw [capital?_eq_none hplain hlower hcapitals] at h
    cases h
  · exact opens_digits hplain h

/-! ### The scanner finds the words -/

theorem words_scan (h : Plain t) : words t = (scan t).map lower := by
  fun_induction scan t with
  | case1 => rfl
  | case2 c rest word hat ih =>
    have hopens := opens_wordAt h hat
    obtain ⟨d, tail, rfl⟩ := List.exists_cons_of_ne_nil hopens.ne_nil
    obtain ⟨behind, hsplit, hwords⟩ := hopens
    rw [List.cons_append] at hsplit
    obtain ⟨rfl, rfl⟩ := List.cons.inj hsplit
    rw [List.length_cons, Nat.add_sub_cancel, List.drop_left] at ih ⊢
    have hword : Plain (c :: tail) := fun e he => h e (List.mem_append_left behind he)
    have hbehind : Plain behind := fun e he => h e (List.mem_append_right (c :: tail) he)
    rw [hwords, ih hbehind, ← lower_of_plain hword, List.map_cons]
  | case3 c rest hat ih =>
    have hc : isAsciiAlnum c = false := by
      rw [← Bool.not_eq_true]
      intro hc
      have hsome := wordAt?_isSome hc rest
      rw [hat] at hsome
      cases hsome
    rw [words_skip hc]
    exact ih fun d hd => h d (List.mem_cons_of_mem c hd)

theorem head?_blanked_lower (t : Text) :
    (blanked t).head?.any isAsciiLower = t.head?.any isAsciiLower := by
  cases t with
  | nil => rfl
  | cons c rest =>
    change isAsciiLower (if isAsciiAlnum c then c else ' ') = isAsciiLower c
    split_ifs with hc
    · rfl
    · have hlower : isAsciiLower c = false := by
        rw [← Bool.not_eq_true]
        exact fun h => hc (alnum_of_isAsciiLower h)
      rw [hlower]
      decide

/-- It does not matter to the words what separates them. -/
theorem words_blanked (name : Text) : words (blanked name) = words name := by
  induction name with
  | nil => rfl
  | cons c cs ih =>
    rw [blanked, List.map_cons, ← blanked]
    cases hc : isAsciiAlnum c with
    | false => rw [if_neg (by simp), words_skip (by decide), words_skip hc, ih]
    | true =>
      rw [if_pos rfl]
      cases cs with
      | nil => rfl
      | cons d rest =>
        rw [blanked, List.map_cons, ← blanked] at ih ⊢
        have hnext : continues c d (blanked rest).head? = continues c d rest.head? := by
          simp only [continues, head?_blanked_lower]
        cases hd : isAsciiAlnum d with
        | false =>
          rw [hd, if_neg (by simp)] at ih
          rw [if_neg (by simp), words_break hc (continues_eq_false (by decide)),
            words_break hc (continues_eq_false hd), ih]
        | true =>
          rw [hd, if_pos rfl] at ih
          rw [if_pos rfl]
          cases hgoes : continues c d rest.head? with
          | false => rw [words_break hc (hnext.trans hgoes), words_break hc hgoes, ih]
          | true =>
            obtain ⟨word, more, hwords⟩ := exists_words hd rest
            rw [words_continue hc (hnext.trans hgoes) (ih.trans hwords),
              words_continue hc hgoes hwords]

/-! ### Names that are made of words -/

/-- The letters and digits of a name, in lower case. -/
def kept (name : Text) : Text := lower (name.filter isAsciiAlnum)

theorem kept_eq (name : Text) : kept name = (name.filter isAsciiAlnum).map lowerAscii :=
  lower_of_alnum fun _ hc => (List.mem_filter.mp hc).2

theorem lower_studly_eq_kept (name : Text) : lower (studly name) = kept name := by
  rw [lower_of_alnum (studly_alnum name), lower_studly, kept_eq]

/-- Camel case is the capitalised name but for the first character. -/
theorem capitalize_camel (name : Text) : capitalize (camel name) = studly name := by
  have huniform := words_uniform name
  unfold camel studly
  cases hwords : words name with
  | nil => rfl
  | cons word more =>
    obtain ⟨c, rest, rfl⟩ := List.exists_cons_of_ne_nil (huniform word (by simp [hwords])).1
    rfl

theorem lower_camel_eq_kept (name : Text) : lower (camel name) = kept name := by
  rw [lower_of_alnum (camel_alnum name), ← lower_capitalize, capitalize_camel, lower_studly,
    kept_eq]

/-- Without its blanks, a title is the capitalised name. -/
theorem filter_human (name : Text) : (human name).filter (· ≠ ' ') = studly name := by
  apply filter_join
  intro piece hpiece hblank
  obtain ⟨word, hword, rfl⟩ := List.mem_map.mp hpiece
  have halnum := capitalize_alnum (words_alnum name word hword) ' ' hblank
  exact absurd halnum (by decide)

/-- The words of a name are what the scanner finds. Put together they are the letters and digits of
the name, in order and in lower case, and each of them consists of letters or of digits, one at
least. A capitalised name, a name in camel case and a title without its blanks are, but for
capitals, the same letters and digits once more. -/
theorem words_lose_nothing (name : Text) :
    words name = (scan (blanked name)).map lower ∧
      (words name).flatten = kept name ∧
      (∀ word ∈ words name, word ≠ [] ∧ Uniform word) ∧
      lower (studly name) = kept name ∧ lower (camel name) = kept name ∧
      lower ((human name).filter (· ≠ ' ')) = kept name := by
  refine ⟨?scanned, ?together, words_uniform name, lower_studly_eq_kept name,
    lower_camel_eq_kept name, ?title⟩
  case scanned => rw [← words_scan (plain_blanked name), words_blanked]
  case together => rw [words_flatten, kept_eq]
  case title => rw [filter_human, lower_studly_eq_kept]

example : words "HTTPServer2go_é" = ["http", "server", "2", "go"] := by decide

end Words

end ApiScaffold
