import ApiScaffold.PhpLiteral
import Mathlib.Data.List.Forall2
import Mathlib.Data.List.TakeWhile

/-!
# Reading literals back

Readers take a thing off the start of a text and leave the rest of it. The reader of strings
knows the two escapes of single quotes and takes any other backslash as it is; the reader of
lists lets blanks stand around its things and a comma behind the last one. A literal that was
written is read back as what it was written from, and the reader stops right behind it, whatever
follows. Escapes of other kinds of strings are not covered.
-/
namespace ApiScaffold.PhpLiteral

open Text

/-- Takes one thing off the start of a text and leaves a shorter one. -/
structure Reader (α : Type) where
  read : Text → Option (α × Text)
  shorter : ∀ {t a rest}, read t = some (a, rest) → rest.length < t.length

/-- What was read, with one more thing in front of it. -/
def prepend {α : Type} (a : α) (found : List α × Text) : List α × Text := (a :: found.1, found.2)

def isSpace (c : Char) : Bool := c = ' ' || c = '\n' || c = '\t' || c = '\r'

def skipSpace (t : Text) : Text := t.dropWhile isSpace

/-- The first character that is no blank, and what is behind it. -/
def nextMark : Text → Option (Char × Text)
  | [] => none
  | c :: rest => if isSpace c then nextMark rest else some (c, rest)

theorem skipSpace_length_le (t : Text) : (skipSpace t).length ≤ t.length :=
  (List.dropWhile_suffix _).length_le

theorem skipSpace_cons {c : Char} (h : isSpace c = false) (t : Text) :
    skipSpace (c :: t) = c :: t :=
  List.dropWhile_cons_of_neg (by simp [h])

theorem skipSpace_append {blank : Text} (h : ∀ c ∈ blank, isSpace c = true) (t : Text) :
    skipSpace (blank ++ t) = skipSpace t :=
  List.dropWhile_append_of_pos h

theorem nextMark_cons {c : Char} (h : isSpace c = false) (t : Text) :
    nextMark (c :: t) = some (c, t) := by
  simp [nextMark, h]

theorem nextMark_append {blank : Text} (h : ∀ c ∈ blank, isSpace c = true) (t : Text) :
    nextMark (blank ++ t) = nextMark t := by
  induction blank with
  | nil => rfl
  | cons c cs ih =>
    obtain ⟨hc, hcs⟩ := List.forall_mem_cons.mp h
    rw [List.cons_append, nextMark, if_pos hc, ih hcs]

theorem nextMark_length_lt {t rest : Text} {c : Char} (h : nextMark t = some (c, rest)) :
    rest.length < t.length := by
  induction t with
  | nil => cases h
  | cons d ds ih =>
    rw [nextMark] at h
    rw [List.length_cons]
    split_ifs at h
    · have hlt := ih h
      omega
    · cases h
      omega

/-- What stands behind an opening quote, up to the closing one. A backslash stands for itself
unless a backslash or a quote follows it. -/
def unquote : Text → Option (Text × Text)
  | [] => none
  | '\'' :: rest => some ([], rest)
  | '\\' :: '\\' :: rest => (unquote rest).map (prepend '\\')
  | '\\' :: '\'' :: rest => (unquote rest).map (prepend '\'')
  | c :: rest => (unquote rest).map (prepend c)

theorem unquote_length_lt {t value rest : Text} (h : unquote t = some (value, rest)) :
    rest.length < t.length := by
  fun_induction unquote t generalizing value with
  | case1 => cases h
  | case2 rest =>
    cases h
    exact Nat.lt_succ_self _
  | case3 more ih | case4 more ih | case5 c more _ _ _ ih =>
    obtain ⟨⟨value', rest'⟩, hmore, heq⟩ := Option.map_eq_some_iff.mp h
    cases heq
    have hlt : rest'.length < more.length := ih hmore
    simp only [List.length_cons]
    omega

theorem unquote_cons {c : Char} (hquote : c ≠ '\'') (hslash : c ≠ '\\') (t : Text) :
    unquote (c :: t) = (unquote t).map (prepend c) := by
  rw [unquote]
  · exact fun h => absurd h hquote
  · exact fun _ h => absurd h hslash
  · exact fun _ h => absurd h hslash

/-- A text is read back from its escaped form, whatever follows the closing quote. -/
theorem unquote_escape (value rest : Text) :
    unquote (escape value ++ '\'' :: rest) = some (value, rest) := by
  induction value with
  | nil => rfl
  | cons c cs ih =>
    rw [escape]
    split_ifs with hc
    · rcases hc with rfl | rfl
      all_goals
        rw [List.cons_append, List.cons_append, unquote, ih]
        rfl
    · rw [not_or] at hc
      rw [List.cons_append, unquote_cons hc.2 hc.1, ih]
      rfl

namespace Reader

/-- A string in single quotes. -/
def string : Reader Text where
  read
    | '\'' :: rest => unquote rest
    | _ => none
  shorter := by
    intro t value rest h
    split at h
    · have hlt := unquote_length_lt h
      rw [List.length_cons]
      omega
    · cases h

theorem string_quote (value rest : Text) :
    string.read (quote value ++ rest) = some (value, rest) := by
  have hquote : quote value ++ rest = '\'' :: (escape value ++ '\'' :: rest) := by simp [quote]
  rw [hquote]
  exact unquote_escape value rest

variable {α : Type} {close : Char} {item : Reader α}

/-- One thing, the mark behind it and what follows the mark. -/
def entry (item : Reader α) (t : Text) : Option (α × Char × Text) :=
  (item.read (skipSpace t)).bind fun found =>
    (nextMark found.2).map fun mark => (found.1, mark)

theorem entry_eq_some_iff {t rest : Text} {a : α} {c : Char} :
    item.entry t = some (a, c, rest) ↔
      ∃ behind, item.read (skipSpace t) = some (a, behind) ∧ nextMark behind = some (c, rest) := by
  simp [entry, Option.bind_eq_some_iff, Prod.ext_iff]

theorem entry_length_lt {t rest : Text} {a : α} {c : Char}
    (h : item.entry t = some (a, c, rest)) : rest.length < t.length := by
  obtain ⟨behind, hread, hmark⟩ := entry_eq_some_iff.mp h
  have hskip := skipSpace_length_le t
  have hitem := item.shorter hread
  have hbehind := nextMark_length_lt hmark
  omega

/-- Things with a comma between them, up to a closing character. One comma may stand behind the
last thing. -/
def upTo (close : Char) (item : Reader α) (t : Text) : Option (List α × Text) :=
  match _h : item.entry t with
  | some (a, c, rest) =>
    if c = ',' then (upTo close item rest).map (prepend a)
    else if c = close then some ([a], rest)
    else none
  | none =>
    match nextMark t with
    | some (c, rest) => if c = close then some ([], rest) else none
    | none => none
termination_by t.length
decreasing_by exact entry_length_lt _h

variable {t rest : Text} {a : α}

theorem upTo_comma (h : item.entry t = some (a, ',', rest)) :
    upTo close item t = (upTo close item rest).map (prepend a) := by
  rw [upTo]
  split <;> simp_all

theorem upTo_last (hclose : close ≠ ',') (h : item.entry t = some (a, close, rest)) :
    upTo close item t = some ([a], rest) := by
  rw [upTo]
  split <;> simp_all

theorem upTo_none (h : item.entry t = none) (hmark : nextMark t = some (close, rest)) :
    upTo close item t = some ([], rest) := by
  rw [upTo]
  split <;> simp_all

theorem upTo_length_lt {items : List α} (h : upTo close item t = some (items, rest)) :
    rest.length < t.length := by
  fun_induction upTo close item t generalizing items with
  | case1 t a more hentry ih =>
    obtain ⟨⟨items', rest'⟩, hmore, heq⟩ := Option.map_eq_some_iff.mp h
    cases heq
    have hlt := ih hmore
    have hfirst := entry_length_lt hentry
    omega
  | case2 t a more hentry hcomma =>
    cases h
    exact entry_length_lt hentry
  | case4 t hentry more hmark =>
    cases h
    exact nextMark_length_lt hmark
  | case3 | case5 | case6 => cases h

/-- Things one behind the other with blanks in front of each, as far as they are read. -/
def many (item : Reader α) (t : Text) : List α :=
  match _h : item.read (skipSpace t) with
  | some (a, rest) => a :: many item rest
  | none => []
termination_by t.length
decreasing_by
  have hskip := skipSpace_length_le t
  have hitem := item.shorter _h
  omega

/-- A piece that is read as a thing, up to a comma or the closing character. -/
structure Spells (close : Char) (item : Reader α) (piece : Text) (a : α) : Prop where
  start : ∃ c rest, piece = c :: rest ∧ isSpace c = false
  reads : ∀ mark rest, mark = ',' ∨ mark = close →
    item.read (piece ++ mark :: rest) = some (a, mark :: rest)

variable {piece lead blank : Text}

theorem Spells.entry (h : Spells close item piece a) (hclose : isSpace close = false)
    (hlead : ∀ c ∈ lead, isSpace c = true) {mark : Char} (hmark : mark = ',' ∨ mark = close) :
    item.entry (lead ++ (piece ++ mark :: rest)) = some (a, mark, rest) := by
  obtain ⟨c, cs, rfl, hc⟩ := h.start
  have hspace : isSpace mark = false := by
    rcases hmark with rfl | rfl
    · rfl
    · exact hclose
  refine entry_eq_some_iff.mpr ⟨mark :: rest, ?_, nextMark_cons hspace rest⟩
  rw [skipSpace_append hlead, List.cons_append, skipSpace_cons hc, ← List.cons_append]
  exact h.reads mark rest hmark

section
variable (hclose : isSpace close = false)
include hclose

/-- Pieces with a comma and blanks between them are read as a list, if the last one is. -/
theorem upTo_join {ending : Text} (hblank : ∀ c ∈ blank, isSpace c = true)
    (hending : ∀ lead piece a, (∀ c ∈ lead, isSpace c = true) → Spells close item piece a →
      upTo close item (lead ++ (piece ++ ending)) = some ([a], rest))
    {pieces : List Text} {values : List α} (h : List.Forall₂ (Spells close item) pieces values)
    (hsome : pieces ≠ []) (hlead : ∀ c ∈ lead, isSpace c = true) :
    upTo close item (lead ++ (join (',' :: blank) pieces ++ ending)) = some (values, rest) := by
  induction h generalizing lead with
  | nil => exact absurd rfl hsome
  | @cons piece a pieces values hpiece hrest ih =>
    cases hrest with
    | nil => exact hending lead piece a hlead hpiece
    | cons hnext hmore =>
      have htail := ih (List.cons_ne_nil _ _) hblank
      simp only [join_cons_cons, List.append_assoc, List.cons_append] at htail ⊢
      rw [upTo_comma (hpiece.entry hclose hlead (Or.inl rfl)), htail]
      rfl

theorem upTo_single (hcomma : close ≠ ',') (h : Spells close item piece a)
    (hlead : ∀ c ∈ lead, isSpace c = true) :
    upTo close item (lead ++ (piece ++ close :: rest)) = some ([a], rest) :=
  upTo_last hcomma (h.entry hclose hlead (Or.inr rfl))

/-- A comma may stand behind the last piece. -/
theorem upTo_single_comma (hempty : ∀ more, item.read (close :: more) = none)
    (h : Spells close item piece a) (hlead : ∀ c ∈ lead, isSpace c = true)
    (hblank : ∀ c ∈ blank, isSpace c = true) :
    upTo close item (lead ++ (piece ++ ',' :: (blank ++ close :: rest))) = some ([a], rest) := by
  have hnone : item.entry (blank ++ close :: rest) = none := by
    unfold Reader.entry
    rw [skipSpace_append hblank, skipSpace_cons hclose, hempty]
    rfl
  have hmark : nextMark (blank ++ close :: rest) = some (close, rest) := by
    rw [nextMark_append hblank, nextMark_cons hclose]
  rw [upTo_comma (h.entry hclose hlead (Or.inl rfl)), upTo_none hnone hmark]
  rfl

end

/-- A piece that is read as a thing, whatever follows it. -/
structure Yields (item : Reader α) (piece : Text) (a : α) : Prop where
  start : ∃ c rest, piece = c :: rest ∧ isSpace c = false
  reads : ∀ rest, item.read (piece ++ rest) = some (a, rest)

theorem many_append (h : Yields item piece a) (hlead : ∀ c ∈ lead, isSpace c = true) (t : Text) :
    item.many (lead ++ (piece ++ t)) = a :: item.many t := by
  obtain ⟨c, cs, rfl, hc⟩ := h.start
  have hread : item.read (skipSpace (lead ++ (c :: cs ++ t))) = some (a, t) := by
    rw [skipSpace_append hlead, List.cons_append, skipSpace_cons hc, ← List.cons_append]
    exact h.reads t
  rw [many]
  split <;> simp_all

theorem many_blank (hempty : item.read [] = none) (h : ∀ c ∈ blank, isSpace c = true) :
    item.many blank = [] := by
  have hread : item.read (skipSpace blank) = none := by
    have hnone : skipSpace blank = [] := List.dropWhile_eq_nil_iff.mpr h
    rw [hnone, hempty]
  rw [many]
  split <;> simp_all

/-- Pieces with blanks between them are read one by one. -/
theorem many_join (hempty : item.read [] = none) (hblank : ∀ c ∈ blank, isSpace c = true)
    {ending : Text} (hending : ∀ c ∈ ending, isSpace c = true) {pieces : List Text}
    {values : List α} (h : List.Forall₂ (Yields item) pieces values)
    (hlead : ∀ c ∈ lead, isSpace c = true) :
    item.many (lead ++ (join blank pieces ++ ending)) = values := by
  induction h generalizing lead with
  | nil => exact many_blank hempty (List.forall_mem_append.mpr ⟨hlead, hending⟩)
  | @cons piece a pieces values hpiece hrest ih =>
    cases hrest with
    | nil =>
      have hlast : join blank [piece] = piece := rfl
      rw [hlast, many_append hpiece hlead, many_blank hempty hending]
    | cons hnext hmore =>
      rw [join_cons_cons, List.append_assoc, List.append_assoc, many_append hpiece hlead,
        ih hblank]

theorem string_spells (close : Char) (value : Text) :
    Spells close string (quote value) value where
  start := ⟨'\'', _, rfl, rfl⟩
  reads mark rest _ := string_quote value (mark :: rest)

/-- An array literal of things. -/
def array (item : Reader α) : Text → Option (List α × Text)
  | '[' :: rest => item.upTo ']' rest
  | _ => none

end Reader

/-- An array literal of strings. -/
def readArray : Text → Option (List Text × Text)
  | '[' :: rest => Reader.string.upTo ']' rest
  | _ => none

theorem isSpace_lineFeed_spaces (n : Nat) : ∀ c ∈ '\n' :: spaces n, isSpace c = true := by
  intro c hc
  rcases List.mem_cons.mp hc with rfl | hc
  · rfl
  · rw [List.eq_of_mem_replicate hc]
    rfl

/-- An array literal of several items, with its blanks and its commas. -/
theorem array_append {first second : Text} {more : List Text} (rest : Text) :
    array (first :: second :: more) ++ rest =
      '[' :: (('\n' :: spaces 12) ++ (join (',' :: '\n' :: spaces 12) (first :: second :: more) ++
        ',' :: (('\n' :: spaces 8) ++ ']' :: rest))) := by
  simp [array]

/-- An array literal is read back as the things that its pieces spell. -/
theorem Reader.array_read {α : Type} {item : Reader α} {pieces : List Text} {values : List α}
    (hempty : ∀ rest, item.read (']' :: rest) = none)
    (h : List.Forall₂ (Spells ']' item) pieces values) (rest : Text) :
    item.array (PhpLiteral.array pieces ++ rest) = some (values, rest) := by
  match pieces, values, h with
  | [], _, .nil =>
    have hentry : item.entry (']' :: rest) = none := by
      unfold Reader.entry
      rw [skipSpace_cons rfl, hempty]
      rfl
    exact upTo_none hentry rfl
  | [piece], _, .cons hpiece .nil =>
    have hone : item.upTo ']' ([] ++ (piece ++ ']' :: rest)) = some ([_], rest) :=
      upTo_single rfl (by decide) hpiece (by simp)
    simpa [PhpLiteral.array, Reader.array] using hone
  | first :: second :: more, _, h =>
    rw [array_append]
    refine upTo_join rfl (isSpace_lineFeed_spaces 12) ?_ h (List.cons_ne_nil _ _)
      (isSpace_lineFeed_spaces 12)
    intro lead piece a hlead hpiece
    exact upTo_single_comma rfl hempty hpiece hlead (isSpace_lineFeed_spaces 8)

theorem readArray_append (items : List Text) (rest : Text) :
    readArray (quotedArray items ++ rest) = some (items, rest) := by
  have hspells : List.Forall₂ (Reader.Spells ']' Reader.string) (items.map quote) items := by
    simp [List.forall₂_same, Reader.string_spells]
  exact Reader.array_read (fun _ => rfl) hspells rest

/-- Array literals and string literals are read back as what they were written from, and nothing
behind them is touched. So no two lists and no two texts have one literal. -/
theorem quoted_literals_read_back :
    (∀ items rest, readArray (quotedArray items ++ rest) = some (items, rest)) ∧
      (∀ value rest, Reader.string.read (quote value ++ rest) = some (value, rest)) ∧
      Function.Injective quotedArray ∧ Function.Injective quote := by
  refine ⟨readArray_append, Reader.string_quote, fun items items' h => ?_, fun value value' h => ?_⟩
  · have hread := readArray_append items []
    rw [h, readArray_append] at hread
    cases hread
    rfl
  · have hread := Reader.string_quote value []
    rw [h, Reader.string_quote] at hread
    cases hread
    rfl

-- The reader also takes literals that are never written: other blanks, a comma after one item,
-- backslashes that escape nothing.
example : readArray "[ 'a\\b' ,\t'\\'',]; rest" =
    some ([("a\\b" : Text), ("'" : Text)], ("; rest" : Text)) := by
  decide +kernel

example : readArray "['a' 'b']" = none := by decide +kernel

end ApiScaffold.PhpLiteral
