import ApiScaffold.Draft.BareKeyword
import ApiScaffold.Proofs.TemplateTokens
import ApiScaffold.Proofs.CapitalizedNames
import ApiScaffold.Proofs.RepeatedControllers
import Mathlib.Data.List.TakeWhile

/-!
# Bare keywords are written out line by line

Both passes over a document look at a line from its beginning to its end, and what they put in its
place has no line feed. So a pass does to every line what it does to this line alone, and the second
pass meets the lines of the first. It leaves those alone that were written out, as they have a colon
now, and for the same reason nothing is left to do for another run.
-/
namespace ApiScaffold

open Text PhpLiteral

namespace Text

variable {sep c : Char} {piece t : Text}

theorem takeWhile_append_stop {p : Char → Bool} (h : p c = false) (a b : Text) :
    (a ++ c :: b).takeWhile p = a.takeWhile p := by
  induction a with
  | nil => exact List.takeWhile_cons_of_neg (by simp [h])
  | cons d rest ih =>
    rw [List.cons_append, List.takeWhile_cons, List.takeWhile_cons, ih]

theorem drop_takeWhile_append (p : Char → Bool) (a b : Text) :
    (a ++ b).drop (a.takeWhile p).length = a.drop (a.takeWhile p).length ++ b :=
  List.drop_append_of_le_length (List.takeWhile_prefix p).length_le

theorem not_mem_of_mem_splitOn (h : piece ∈ splitOn sep t) : sep ∉ piece :=
  fun hsep => (of_mem_splitOn h sep hsep).1 rfl

end Text

namespace Draft

variable {keywords : List Text} {new : BareLine → Text} {bare : BareLine} {P : Text → Prop}
  {line rest t word : Text} {c : Char}

/-! ### Bare lines -/

/-- An indented word with nothing but blanks behind it. -/
structure BareLine.Alone (P : Text → Prop) (bare : BareLine) : Prop where
  indented : bare.indent ≠ []
  indent : ∀ c ∈ bare.indent, isIndent c = true
  word : P bare.word
  trail : ∀ c ∈ bare.trail, isIndent c = true

/-- A word that is compared equal to one of the keywords. -/
def Recognised (keywords : List Text) (word : Text) : Prop := word.map foldCase ∈ keywords

/-- Nothing behind the line feed matters. -/
theorem bareLine?_append (keywords : List Text) (line rest : Text) :
    bareLine? keywords (line ++ '\n' :: rest) = bareLine? keywords line := by
  have hhead : ∀ x : Text, (x ++ '\n' :: rest).head?.all (· == '\n') = x.head?.all (· == '\n') := by
    intro x
    cases x <;> rfl
  unfold bareLine?
  simp only [takeWhile_append_stop (c := '\n') (p := isIndent) (by decide),
    takeWhile_append_stop (c := '\n') (p := isWordPart) (by decide),
    drop_takeWhile_append, hhead]

/-- A line that is found is the whole line. -/
theorem bareLine?_some (hline : '\n' ∉ line) (h : bareLine? keywords line = some bare) :
    bare.Alone (Recognised keywords) ∧ bare.text = line := by
  unfold bareLine? at h
  obtain ⟨indent, unindented, rfl, hindent, htake, -⟩ := exists_span isIndent line
  obtain ⟨word, behind, rfl, -, hword, -⟩ := exists_span isWordPart unindented
  obtain ⟨trail, rest, rfl, htrail, hblank, -⟩ := exists_span isIndent behind
  simp only [htake, List.drop_left, hword, hblank] at h
  split_ifs at h with hbare
  obtain ⟨hindented, hkeyword, hrest⟩ := hbare
  cases h
  refine ⟨⟨hindented, hindent, List.contains_iff_mem.mp hkeyword, htrail⟩, ?_⟩
  cases rest with
  | nil => simp [BareLine.text]
  | cons c cs =>
    have hc : c = '\n' := by simpa using hrest
    simp [hc] at hline

/-- A word between blanks is cut out of its line again. -/
theorem bareLine?_text (h : bare.Alone fun word => word ≠ [] ∧ word.all isWordPart = true) :
    bareLine? keywords bare.text =
      if keywords.contains (bare.word.map foldCase) then some bare else none := by
  obtain ⟨indent, word, trail⟩ := bare
  obtain ⟨hindented, hindent, ⟨hne, hparts⟩, htrail⟩ := h
  obtain ⟨d, more, rfl⟩ := List.exists_cons_of_ne_nil hne
  rw [List.all_eq_true] at hparts
  have hpart : ∀ c ∈ (d :: more ++ trail).head?, isIndent c = false := by
    intro c hc
    cases hc
    simpa using (Bool.and_eq_true_iff.mp (hparts d List.mem_cons_self)).1
  have hword : ∀ c ∈ trail.head?, isWordPart c = false := by
    intro c hc
    simp [isWordPart, htrail c (List.mem_of_mem_head? hc)]
  have htake := takeWhile_stop hindent hpart
  have hcut := takeWhile_stop hparts hword
  have hblank : trail.takeWhile isIndent = trail := List.takeWhile_eq_self_iff.mpr htrail
  unfold bareLine?
  simp only [BareLine.text, List.append_assoc, htake, List.drop_left, hcut, hblank,
    List.drop_length]
  simp [hindented]

/-! ### One pass -/

/-- What a pass makes of a line. -/
def replaceLine (keywords : List Text) (new : BareLine → Text) (line : Text) : Text :=
  match bareLine? keywords line with
  | some bare => new bare
  | none => line

theorem replaceBare_skip (front rest : Text) :
    replaceBare keywords new front.length false (front ++ rest) =
      replaceBare keywords new 0 false rest := by
  induction front with
  | nil => rfl
  | cons c cs ih =>
    rw [List.length_cons, List.cons_append, replaceBare]
    exact ih

theorem replaceBare_inside (hline : '\n' ∉ line) (rest : Text) :
    replaceBare keywords new 0 false (line ++ rest) =
      line ++ replaceBare keywords new 0 false rest := by
  induction line with
  | nil => rfl
  | cons c cs ih =>
    obtain ⟨hc, hcs⟩ := not_or.mp (List.mem_cons.not.mp hline)
    have hfeed : (c == '\n') = false := by simpa using Ne.symm hc
    rw [List.cons_append, replaceBare, if_neg Bool.false_ne_true]
    dsimp only
    rw [hfeed, ih hcs, List.cons_append]

/-- A pass does with the line at hand what it does with this line alone. -/
theorem replaceBare_line (hline : '\n' ∉ line) (hrest : rest = [] ∨ ∃ more, rest = '\n' :: more) :
    replaceBare keywords new 0 true (line ++ rest) =
      replaceLine keywords new line ++ replaceBare keywords new 0 false rest := by
  have hbare : bareLine? keywords (line ++ rest) = bareLine? keywords line := by
    rcases hrest with rfl | ⟨more, rfl⟩
    · rw [List.append_nil]
    · exact bareLine?_append keywords line more
  cases line with
  | nil =>
    rcases hrest with rfl | ⟨more, rfl⟩
    · rfl
    · rw [List.nil_append] at hbare
      rw [List.nil_append, replaceBare, if_pos rfl, hbare]
      rfl
  | cons c cs =>
    obtain ⟨hc, hcs⟩ := not_or.mp (List.mem_cons.not.mp hline)
    rw [List.cons_append] at hbare
    rw [List.cons_append, replaceBare, if_pos rfl, hbare, replaceLine]
    cases hfound : bareLine? keywords (c :: cs) with
    | none =>
      have hfeed : (c == '\n') = false := by simpa using Ne.symm hc
      dsimp only
      rw [hfeed, replaceBare_inside hcs, List.cons_append]
    | some bare =>
      -- The line is passed over as a whole: its first character is at hand, the others are skipped.
      have htext : bare.text.length - 1 = cs.length := by
        rw [(bareLine?_some hline hfound).2]
        rfl
      dsimp only
      rw [htext, replaceBare_skip]

theorem replaceBare_lines {lines : List Text} (h : ∀ line ∈ lines, '\n' ∉ line) :
    replaceBare keywords new 0 true (join "\n" lines) =
      join "\n" (lines.map (replaceLine keywords new)) := by
  induction lines with
  | nil => rfl
  | cons line more ih =>
    obtain ⟨hline, hmore⟩ := List.forall_mem_cons.mp h
    cases more with
    | nil =>
      have halone : replaceBare keywords new 0 true (line ++ []) = _ :=
        replaceBare_line hline (.inl rfl)
      simpa [replaceBare] using halone
    | cons next more =>
      calc replaceBare keywords new 0 true (join "\n" (line :: next :: more))
          = replaceBare keywords new 0 true (line ++ '\n' :: join "\n" (next :: more)) := by
            rw [join_cons_cons, List.append_assoc]
            rfl
        _ = replaceLine keywords new line ++
              '\n' :: replaceBare keywords new 0 true (join "\n" (next :: more)) := by
            rw [replaceBare_line hline (.inr ⟨_, rfl⟩), replaceBare]
            rfl
        _ = join "\n" ((line :: next :: more).map (replaceLine keywords new)) := by
            rw [ih hmore, List.map_cons, List.map_cons, List.map_cons, join_cons_cons,
              List.append_assoc]
            rfl

theorem splitOn_replaceBare (hnew : ∀ bare, '\n' ∉ bare.text → '\n' ∉ new bare) (t : Text) :
    splitOn '\n' (replaceBare keywords new 0 true t) =
      (splitOn '\n' t).map (replaceLine keywords new) := by
  have hlines : ∀ line ∈ splitOn '\n' t, '\n' ∉ line := fun line => not_mem_of_mem_splitOn
  have hwritten : ∀ line ∈ (splitOn '\n' t).map (replaceLine keywords new), '\n' ∉ line := by
    intro written hmem
    obtain ⟨line, hline, rfl⟩ := List.mem_map.mp hmem
    unfold replaceLine
    cases hfound : bareLine? keywords line with
    | none => exact hlines line hline
    | some bare =>
      refine hnew bare ?_
      rw [(bareLine?_some (hlines line hline) hfound).2]
      exact hlines line hline
  calc splitOn '\n' (replaceBare keywords new 0 true t)
      = splitOn '\n' (replaceBare keywords new 0 true (join "\n" (splitOn '\n' t))) := by
        rw [show join "\n" (splitOn '\n' t) = t from join_splitOn '\n' t]
    _ = splitOn '\n' (join ['\n'] ((splitOn '\n' t).map (replaceLine keywords new))) := by
        rw [replaceBare_lines hlines]
        rfl
    _ = (splitOn '\n' t).map (replaceLine keywords new) :=
        splitOn_join hwritten (by simpa using splitOn_ne_nil '\n' t)

/-! ### Keywords -/

/-- The same letter, if in another case. An i may be dotted as a capital or undotted, and an s may
be long. -/
def SameLetter (c k : Char) : Prop :=
  lowerAscii c = lowerAscii k ∨
    lowerAscii k = 'i' ∧ (c = Char.ofNat 0x130 ∨ c = Char.ofNat 0x131) ∨
    lowerAscii k = 's' ∧ c = Char.ofNat 0x17F

def Spells (word name : Text) : Prop := List.Forall₂ SameLetter word name

def keywordNames : List Text :=
  ["id", "timestamps", "timestampsTz", "softDeletes", "softDeletesTz"]

theorem foldCase_eq_lowerAscii_iff {k : Char} (hk : isAsciiLetter k = true) :
    foldCase c = lowerAscii k ↔ SameLetter c k := by
  have hletter := (isAsciiLower_iff _).mp (isAsciiLower_lowerAscii hk)
  -- No further form of i or s is a letter of ASCII.
  have hwide (hc : 0x130 ≤ c.toNat) : lowerAscii c ≠ lowerAscii k := by
    intro h
    have hupper : isAsciiUpper c = false := by
      rw [← Bool.not_eq_true, isAsciiUpper_iff]
      omega
    rw [lowerAscii, if_neg (by simp [hupper])] at h
    rw [← h] at hletter
    omega
  have heq (n : Nat) (hn : n < 0xD800) : c = Char.ofNat n ↔ c.toNat = n :=
    ⟨fun h => by rw [h, toNat_ofNat hn], fun h => by rw [← h, Char.ofNat_toNat]⟩
  unfold foldCase SameLetter
  rw [heq 0x130 (by omega), heq 0x131 (by omega), heq 0x17F (by omega)]
  split_ifs with hi hs
  · simp [hwide (by omega), hi, eq_comm, show c.toNat ≠ 0x17F by omega]
  · simp [hwide (by omega), hs, eq_comm]
  · simp [hi, hs]

theorem map_foldCase_eq_iff {name : Text} (h : name.all isAsciiLetter = true) :
    word.map foldCase = name.map lowerAscii ↔ Spells word name := by
  unfold Spells
  induction name generalizing word with
  | nil => simp
  | cons k ks ih =>
    obtain ⟨hk, hks⟩ := Bool.and_eq_true_iff.mp h
    cases word with
    | nil => simp
    | cons c cs =>
      rw [List.map_cons, List.map_cons, List.cons.injEq, List.forall₂_cons,
        foldCase_eq_lowerAscii_iff hk, ih hks]

/-- A word that a document may have alone on its line, in any case. -/
def IsKeyword (word : Text) : Prop := ∃ name ∈ keywordNames, Spells word name

def IsResource (word : Text) : Prop := Spells word "resource"

theorem recognised_bareKeywords : Recognised bareKeywords word ↔ IsKeyword word := by
  have hnames : bareKeywords = keywordNames.map (·.map lowerAscii) := by decide
  have hletters : ∀ name ∈ keywordNames, name.all isAsciiLetter = true := by decide
  rw [Recognised, hnames, List.mem_map]
  exact exists_congr fun name => and_congr_right fun hname => by
    rw [eq_comm, map_foldCase_eq_iff (hletters name hname)]

theorem recognised_resource : Recognised ["resource"] word ↔ IsResource word := by
  have hletters : ("resource" : Text).all isAsciiLetter = true := by decide
  rw [Recognised, List.mem_singleton]
  exact map_foldCase_eq_iff hletters

/-- All words, as they are compared, that mean something alone on their line. -/
def bareWords : List Text := "resource" :: bareKeywords

theorem isAsciiLower_bareWords : ∀ k ∈ bareWords, k ≠ [] ∧ k.all isAsciiLower = true := by
  decide

/-- A recognised word has letters only, and neither blanks nor a colon. -/
theorem Recognised.chars (h : Recognised bareWords word) :
    word ≠ [] ∧ ∀ c ∈ word, isWordPart c = true ∧ c ≠ ':' := by
  obtain ⟨hne, hletters⟩ := isAsciiLower_bareWords _ h
  refine ⟨fun hnil => hne (by rw [hnil]; rfl), fun c hc => ?_⟩
  have hlower : isAsciiLower (foldCase c) = true :=
    List.all_eq_true.mp hletters _ (List.mem_map_of_mem hc)
  constructor
  · by_contra hpart
    have hblank : c = ' ' ∨ c = '\t' ∨ c = '\n' := by
      by_contra hnone
      simp_all [isWordPart, isIndent]
    rcases hblank with rfl | rfl | rfl <;> exact absurd hlower (by decide)
  · rintro rfl
    exact absurd hlower (by decide)

theorem IsKeyword.recognised (h : IsKeyword word) : Recognised bareWords word :=
  List.mem_cons_of_mem _ (recognised_bareKeywords.mpr h)

theorem IsResource.recognised (h : IsResource word) :
    Recognised bareWords word :=
  List.mem_cons.mpr (.inl (List.mem_singleton.mp (recognised_resource.mpr h)))

namespace BareLine

theorem Alone.imp {Q : Text → Prop} (h : bare.Alone P) (hPQ : ∀ word, P word → Q word) :
    bare.Alone Q where
  __ := h
  word := hPQ bare.word h.word

theorem Alone.replaceLine (h : bare.Alone (Recognised bareWords)) :
    replaceLine keywords new bare.text =
      if keywords.contains (bare.word.map foldCase) then new bare else bare.text := by
  have hcut : bareLine? keywords bare.text = _ := bareLine?_text <| h.imp fun word hword =>
    ⟨hword.chars.1, List.all_eq_true.mpr fun c hc => (hword.chars.2 c hc).1⟩
  rw [Draft.replaceLine, hcut]
  split_ifs <;> rfl

theorem Alone.colon (h : bare.Alone (Recognised bareWords)) :
    ':' ∉ bare.text := by
  rw [text, List.mem_append, List.mem_append]
  rintro ((hc | hc) | hc)
  · exact absurd (h.indent _ hc) (by decide)
  · exact (h.word.chars.2 _ hc).2 rfl
  · exact absurd (h.trail _ hc) (by decide)

end BareLine

/-! ### A line -/

/-- What becomes of a line. -/
inductive WrittenOut : Text → Text → Prop
  | keyword (bare : BareLine) : bare.Alone IsKeyword →
      WrittenOut bare.text (bare.indent ++ bare.word ++ ": " ++ bare.word)
  | resource (bare : BareLine) : bare.Alone IsResource →
      WrittenOut bare.text (bare.indent ++ "resource: web")
  | other (line : Text) :
      (¬∃ bare : BareLine, bare.Alone (fun word => IsKeyword word ∨ IsResource word) ∧
        bare.text = line) →
      WrittenOut line line

theorem replaceLine_of_not (hline : '\n' ∉ line)
    (h : ¬∃ bare : BareLine, bare.Alone (Recognised keywords) ∧ bare.text = line) :
    replaceLine keywords new line = line := by
  unfold replaceLine
  cases hfound : bareLine? keywords line with
  | none => rfl
  | some bare => exact absurd ⟨bare, bareLine?_some hline hfound⟩ h

theorem replaceLine_of_colon (hkeywords : keywords ⊆ bareWords) (hline : '\n' ∉ line)
    (h : ':' ∈ line) : replaceLine keywords new line = line := by
  refine replaceLine_of_not hline ?_
  rintro ⟨bare, halone, rfl⟩
  exact (halone.imp fun word hword => hkeywords hword).colon h

theorem splitOn_expandBareKeywords (t : Text) :
    splitOn '\n' (expandBareKeywords t) =
      (splitOn '\n' t).map fun line =>
        replaceLine ["resource"] BareLine.web (replaceLine bareKeywords BareLine.mapping line) := by
  have hmapping : ∀ bare : BareLine, '\n' ∉ bare.text → '\n' ∉ bare.mapping := by
    intro bare h
    simp_all [BareLine.text, BareLine.mapping]
  have hweb : ∀ bare : BareLine, '\n' ∉ bare.text → '\n' ∉ bare.web := by
    intro bare h
    simp_all [BareLine.text, BareLine.web]
  rw [expandBareKeywords, splitOn_replaceBare hweb, splitOn_replaceBare hmapping, List.map_map]
  rfl

theorem expandBareKeywords_line (hline : '\n' ∉ line) :
    expandBareKeywords line =
      replaceLine ["resource"] BareLine.web (replaceLine bareKeywords BareLine.mapping line) := by
  calc expandBareKeywords line
      = join ['\n'] (splitOn '\n' (expandBareKeywords line)) := (join_splitOn '\n' _).symm
    _ = _ := by rw [splitOn_expandBareKeywords, splitOn_of_not_mem hline]; rfl

theorem bareKeywords_subset : bareKeywords ⊆ bareWords := List.subset_cons_self _ _

theorem resource_subset : (["resource"] : List Text) ⊆ bareWords :=
  List.cons_subset.mpr ⟨List.mem_cons_self, List.nil_subset _⟩

theorem expandBareKeywords_of_colon (hline : '\n' ∉ line) (h : ':' ∈ line) :
    expandBareKeywords line = line := by
  rw [expandBareKeywords_line hline, replaceLine_of_colon bareKeywords_subset hline h,
    replaceLine_of_colon resource_subset hline h]

theorem WrittenOut.expand {written : Text} (h : WrittenOut line written) (hline : '\n' ∉ line) :
    expandBareKeywords line = written := by
  rw [expandBareKeywords_line hline]
  cases h with
  | keyword bare h =>
    have hfeed : '\n' ∉ bare.mapping := by
      simp_all [BareLine.text, BareLine.mapping]
    have hword := List.contains_iff_mem.mpr (recognised_bareKeywords.mpr h.word)
    rw [(h.imp fun _ => IsKeyword.recognised).replaceLine, if_pos hword,
      replaceLine_of_colon resource_subset hfeed (by simp [BareLine.mapping])]
    rfl
  | resource bare h =>
    have hword : bare.word.map foldCase = "resource" :=
      List.mem_singleton.mp (recognised_resource.mpr h.word)
    have halone := h.imp fun _ => IsResource.recognised
    rw [halone.replaceLine, hword, if_neg (by decide), halone.replaceLine, hword,
      if_pos (by decide)]
    rfl
  | other _ h =>
    rw [replaceLine_of_not hline, replaceLine_of_not hline]
    · rintro ⟨bare, halone, htext⟩
      exact h ⟨bare, halone.imp fun _ hword => .inr (recognised_resource.mp hword), htext⟩
    · rintro ⟨bare, halone, htext⟩
      exact h ⟨bare, halone.imp fun _ hword => .inl (recognised_bareKeywords.mp hword), htext⟩

theorem exists_writtenOut (line : Text) : ∃ written, WrittenOut line written := by
  by_cases h : ∃ bare : BareLine,
      bare.Alone (fun word => IsKeyword word ∨ IsResource word) ∧ bare.text = line
  · obtain ⟨bare, halone, rfl⟩ := h
    rcases halone.word with hword | hword
    · exact ⟨_, .keyword bare { halone with word := hword }⟩
    · exact ⟨_, .resource bare { halone with word := hword }⟩
  · exact ⟨line, .other line h⟩

theorem writtenOut_iff {written : Text} (hline : '\n' ∉ line) :
    WrittenOut line written ↔ expandBareKeywords line = written := by
  refine ⟨fun h => h.expand hline, ?_⟩
  rintro rfl
  obtain ⟨written, h⟩ := exists_writtenOut line
  rwa [h.expand hline]

theorem WrittenOut.idem {written : Text} (h : WrittenOut line written) (hline : '\n' ∉ line) :
    expandBareKeywords written = written := by
  cases h with
  | keyword bare h =>
    refine expandBareKeywords_of_colon ?_ (by simp)
    simp_all [BareLine.text]
  | resource bare h =>
    refine expandBareKeywords_of_colon ?_ (by simp)
    simp_all [BareLine.text]
  | other _ h => exact (WrittenOut.other line h).expand hline

/-! ### A document -/

theorem splitOn_expand (t : Text) :
    splitOn '\n' (expandBareKeywords t) = (splitOn '\n' t).map expandBareKeywords := by
  rw [splitOn_expandBareKeywords]
  exact List.map_congr_left fun line h => (expandBareKeywords_line (not_mem_of_mem_splitOn h)).symm

theorem expandBareKeywords_expand (t : Text) :
    expandBareKeywords (expandBareKeywords t) = expandBareKeywords t := by
  have hidem : ∀ line ∈ splitOn '\n' t,
      expandBareKeywords (expandBareKeywords line) = expandBareKeywords line := by
    intro line h
    have hfeed := not_mem_of_mem_splitOn h
    exact ((writtenOut_iff hfeed).mpr rfl).idem hfeed
  calc expandBareKeywords (expandBareKeywords t)
      = join ['\n'] (splitOn '\n' (expandBareKeywords (expandBareKeywords t))) :=
        (join_splitOn '\n' _).symm
    _ = join ['\n'] ((splitOn '\n' t).map (expandBareKeywords ∘ expandBareKeywords)) := by
        rw [splitOn_expand, splitOn_expand, List.map_map]
    _ = join ['\n'] ((splitOn '\n' t).map expandBareKeywords) :=
        congrArg (join ['\n']) (List.map_congr_left hidem)
    _ = expandBareKeywords t := by rw [← splitOn_expand, join_splitOn]

/-- A document is written out line by line, each as `WrittenOut` has it whatever the others are. No
line is added or lost, and a document that was written out stays as it is. -/
theorem expandBareKeywords_lines (t : Text) :
    splitOn '\n' (expandBareKeywords t) = (splitOn '\n' t).map expandBareKeywords ∧
    (splitOn '\n' (expandBareKeywords t)).length = (splitOn '\n' t).length ∧
    (∀ line ∈ splitOn '\n' t, ∀ written,
      WrittenOut line written ↔ expandBareKeywords line = written) ∧
    expandBareKeywords (expandBareKeywords t) = expandBareKeywords t :=
  ⟨splitOn_expand t, by rw [splitOn_expand, List.length_map],
    fun _ h _ => writtenOut_iff (not_mem_of_mem_splitOn h), expandBareKeywords_expand t⟩

example : expandBareKeywords "a:\n  Id \n\tresource" = "a:\n  Id: Id\n\tresource: web" := by
  decide +kernel

end Draft

end ApiScaffold
