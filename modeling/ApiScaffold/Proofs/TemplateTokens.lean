import ApiScaffold.ControllerFile
import ApiScaffold.Proofs.AttributeReading
import ApiScaffold.Proofs.ReadableNumbers

/-!
# Where the tokens of a template are

A token is described here by its shape alone, and the tokens of a template are the ones that a
reader meets who goes through it from the left and jumps behind each token met. They cut the
template into tokens and the literal text between them in one way only, whatever values there are.
Filling the template in replaces tokens along this cut and keeps the literal text, so a value may
look like a token, or make one together with the braces beside it, and is still put in as it is.
How a template is found is not a matter of this module.
-/
namespace ApiScaffold

open Text

namespace Text

/-- No word character is a blank. -/
theorem isBlank_of_isWordChar {c : Char} (h : isWordChar c = true) : isBlank c = false := by
  have hall : ∀ n ∈ blankPoints, isWordChar (Char.ofNat n) = false := by decide +kernel
  rw [← Bool.not_eq_true]
  intro hblank
  have hno := hall c.toNat (mem_blankPoints hblank)
  rw [Char.ofNat_toNat, h] at hno
  cases hno

/-- The longest front of a text whose characters all pass a test. -/
theorem exists_span (p : Char → Bool) (t : Text) : ∃ front back, t = front ++ back ∧
    (∀ c ∈ front, p c = true) ∧ t.takeWhile p = front ∧ t.dropWhile p = back :=
  ⟨t.takeWhile p, t.dropWhile p, List.takeWhile_append_dropWhile.symm,
    fun c hc => List.all_eq_true.mp List.all_takeWhile c hc, rfl, rfl⟩

end Text

namespace Stub

open PhpLiteral

/-- A token spells a name: double braces around it, with blanks between them and the name. -/
inductive Spells (name : Text) : Text → Prop
  | token {before behind : Text} (hbefore : ∀ c ∈ before, isBlank c = true) (hname : name ≠ [])
      (hword : ∀ c ∈ name, isWordChar c = true) (hbehind : ∀ c ∈ behind, isBlank c = true) :
      Spells name ('\x7b' :: '\x7b' :: (before ++ (name ++ (behind ++ ['\x7d', '\x7d']))))

/-- A token stands at the start of the text. -/
def StartsWithToken (t : Text) : Prop := ∃ name raw rest, Spells name raw ∧ t = raw ++ rest

theorem tokenAt?_of_spells {name raw : Text} (h : Spells name raw) (rest : Text) :
    tokenAt? (raw ++ rest) = some (name, raw.length) := by
  obtain ⟨hbefore, hname, hword, hbehind⟩ := h
  rename_i before behind
  have hwordStop : ∀ c ∈ (name ++ (behind ++ ('\x7d' :: '\x7d' :: rest))).head?,
      isBlank c = false := by
    intro c hc
    cases name with
    | nil => exact absurd rfl hname
    | cons d ds =>
      cases hc
      exact isBlank_of_isWordChar (hword c List.mem_cons_self)
  have hbehindStop : ∀ c ∈ (behind ++ ('\x7d' :: '\x7d' :: rest)).head?, isWordChar c = false := by
    intro c hc
    cases behind with
    | nil => cases hc; decide
    | cons d ds =>
      cases hc
      rw [← Bool.not_eq_true]
      intro hno
      have hblank := hbehind c List.mem_cons_self
      rw [isBlank_of_isWordChar hno] at hblank
      cases hblank
  have hbraceStop : ∀ c ∈ ('\x7d' :: '\x7d' :: rest).head?, isBlank c = false := by
    intro c hc
    cases hc
    decide
  have hshape : '\x7b' :: '\x7b' :: (before ++ (name ++ (behind ++ ['\x7d', '\x7d']))) ++ rest =
      '\x7b' :: '\x7b' :: (before ++ (name ++ (behind ++ '\x7d' :: '\x7d' :: rest))) := by simp
  have hlength : ('\x7b' :: '\x7b' :: (before ++ (name ++ (behind ++
      '\x7d' :: '\x7d' :: rest)))).length - rest.length =
      ('\x7b' :: '\x7b' :: (before ++ (name ++ (behind ++ ['\x7d', '\x7d'])))).length := by
    simp only [List.length_cons, List.length_append, List.length_nil]
    omega
  rw [hshape, ← hlength]
  simp only [tokenAt?]
  rw [dropWhile_stop hbefore hwordStop, takeWhile_stop hword hbehindStop, List.drop_left,
    dropWhile_stop hbehind hbraceStop]
  cases name with
  | nil => exact absurd rfl hname
  | cons d ds => rfl

theorem spells_of_tokenAt? {t name : Text} {n : Nat} (h : tokenAt? t = some (name, n)) :
    ∃ raw rest, Spells name raw ∧ t = raw ++ rest ∧ n = raw.length := by
  unfold tokenAt? at h
  split at h
  case h_2 => cases h
  rename_i inner
  obtain ⟨before, tail, rfl, hbefore, -, htail⟩ := exists_span isBlank inner
  obtain ⟨word, behindWord, rfl, hword, hwordTake, -⟩ := exists_span isWordChar tail
  obtain ⟨behind, last, rfl, hbehind, -, hlast⟩ := exists_span isBlank behindWord
  simp only [htail, hwordTake, List.drop_left, hlast] at h
  split at h
  case h_2 => cases h
  rename_i first more after
  obtain ⟨rfl, rfl⟩ := Prod.mk.inj (Option.some.inj h)
  have hspells := Spells.token hbefore (List.cons_ne_nil first more) hword hbehind
  refine ⟨_, after, hspells, by simp, ?_⟩
  simp only [List.length_cons, List.length_append, List.length_nil]
  omega

theorem tokenAt?_eq_none_iff {t : Text} : tokenAt? t = none ↔ ¬StartsWithToken t := by
  constructor
  · rintro h ⟨name, raw, rest, hspells, rfl⟩
    rw [tokenAt?_of_spells hspells] at h
    cases h
  · intro h
    cases hat : tokenAt? t with
    | none => rfl
    | some found =>
      obtain ⟨raw, rest, hspells, rfl, -⟩ := spells_of_tokenAt? hat
      exact absurd ⟨_, raw, rest, hspells, rfl⟩ h

theorem Slots.value?_eq_none {slots : Slots} {name : Text} (h : ∀ slot ∈ slots, slot.1 ≠ name) :
    slots.value? name = none := by
  rw [value?, Option.map_eq_none_iff, List.find?_eq_none]
  intro slot hslot
  simpa using h slot (List.mem_reverse.mp hslot)

/-- Literal text and tokens in turn: what follows the last token is literal text again. -/
inductive Cut where
  | last (literal : Text)
  | token (literal name raw : Text) (more : Cut)
  deriving DecidableEq, Repr

namespace Cut

/-- The template that was cut. -/
def text : Cut → Text
  | last literal => literal
  | token literal _ raw more => literal ++ (raw ++ more.text)

/-- The template with the value of its name in the place of every token that has one. -/
def fill (slots : Slots) : Cut → Text
  | last literal => literal
  | token literal name raw more =>
    literal ++ ((slots.value? name).getD raw ++ more.fill slots)

/-- The names of the tokens, in order. -/
def names : Cut → List Text
  | last _ => []
  | token _ name _ more => name :: more.names

/-- In front of some text, no token starts within the literal. -/
def Quiet (literal behind : Text) : Prop :=
  ∀ tail, tail ≠ [] → tail <:+ literal → ¬StartsWithToken (tail ++ behind)

/-- The tokens are the ones met from the left: none starts in the literal text before the next
token, or after the last one. -/
def Leftmost : Cut → Prop
  | last literal => Quiet literal []
  | token literal name raw more =>
    Spells name raw ∧ Quiet literal (raw ++ more.text) ∧ more.Leftmost

/-- More literal text in front. -/
def prepend (front : Text) : Cut → Cut
  | last literal => last (front ++ literal)
  | token literal name raw more => token (front ++ literal) name raw more

@[simp] theorem prepend_nil (cut : Cut) : cut.prepend [] = cut := by
  cases cut <;> rfl

theorem prepend_append (front literal : Text) (cut : Cut) :
    cut.prepend (front ++ literal) = (cut.prepend literal).prepend front := by
  cases cut <;> simp [prepend]

@[simp] theorem text_prepend (front : Text) (cut : Cut) :
    (cut.prepend front).text = front ++ cut.text := by
  cases cut <;> simp [prepend, text]

@[simp] theorem fill_prepend (front : Text) (cut : Cut) (slots : Slots) :
    (cut.prepend front).fill slots = front ++ cut.fill slots := by
  cases cut <;> simp [prepend, fill]

theorem quiet_nil (behind : Text) : Quiet [] behind := by
  intro tail hne htail
  exact absurd (List.suffix_nil.mp htail) hne

theorem quiet_cons {c : Char} {literal behind : Text} :
    Quiet (c :: literal) behind ↔
      ¬StartsWithToken (c :: (literal ++ behind)) ∧ Quiet literal behind := by
  constructor
  · intro h
    constructor
    · exact h (c :: literal) (List.cons_ne_nil c literal) (List.suffix_refl _)
    · intro tail hne htail
      exact h tail hne (htail.trans (List.suffix_cons c literal))
  · rintro ⟨hhere, hquiet⟩ tail hne htail
    rcases List.suffix_cons_iff.mp htail with rfl | htail
    · exact hhere
    · exact hquiet tail hne htail

theorem leftmost_prepend {c : Char} {cut : Cut} (h : cut.Leftmost)
    (hhere : ¬StartsWithToken (c :: cut.text)) : (cut.prepend [c]).Leftmost := by
  cases cut with
  | last literal =>
    apply quiet_cons.mpr
    rw [List.append_nil]
    exact ⟨hhere, h⟩
  | token literal name raw more =>
    obtain ⟨hspells, hquiet, hmore⟩ := h
    exact ⟨hspells, quiet_cons.mpr ⟨hhere, hquiet⟩, hmore⟩

/-- The cut behind the pieces that rendering goes by. -/
def ofPieces : List Piece → Cut
  | [] => last []
  | .char c :: rest => (ofPieces rest).prepend [c]
  | .token name raw :: rest => token [] name raw (ofPieces rest)

theorem fill_ofPieces (slots : Slots) (ps : List Piece) :
    (ofPieces ps).fill slots = ps.flatMap (Piece.fill slots) := by
  induction ps with
  | nil => rfl
  | cons piece rest ih =>
    rw [List.flatMap_cons, ← ih]
    cases piece with
    | char c => rw [ofPieces, fill_prepend]; rfl
    | token name raw => rfl

/-- What a token is cut to. -/
theorem pieces_token {name raw : Text} (h : Spells name raw) (rest : Text) :
    pieces (raw ++ rest) = .token name raw :: pieces rest := by
  have hat := tokenAt?_of_spells h rest
  obtain ⟨c, tail, rfl⟩ : ∃ c tail, raw = c :: tail := by
    cases h
    exact ⟨_, _, rfl⟩
  rw [List.cons_append] at hat ⊢
  rw [pieces, hat]
  simp

/-- Where no token starts, every character is a piece. -/
theorem pieces_quiet {literal behind : Text} (h : Quiet literal behind) :
    pieces (literal ++ behind) = literal.map .char ++ pieces behind := by
  induction literal with
  | nil => rfl
  | cons c literal ih =>
    obtain ⟨hhere, hquiet⟩ := quiet_cons.mp h
    rw [List.cons_append, pieces, tokenAt?_eq_none_iff.mpr hhere, ih hquiet]
    rfl

theorem ofPieces_append (literal : Text) (ps : List Piece) :
    ofPieces (literal.map .char ++ ps) = (ofPieces ps).prepend literal := by
  induction literal with
  | nil => simp
  | cons c literal ih =>
    rw [List.map_cons, List.cons_append, ofPieces, ih, ← prepend_append]
    rfl

/-- The pieces of a template cut it at its leftmost tokens. -/
theorem ofPieces_spec (template : Text) :
    (ofPieces (pieces template)).text = template ∧ (ofPieces (pieces template)).Leftmost := by
  fun_induction pieces template with
  | case1 => exact ⟨rfl, quiet_nil []⟩
  | case2 c rest name n hat ih =>
    obtain ⟨raw, behind, hspells, hsplit, rfl⟩ := spells_of_tokenAt? hat
    obtain ⟨d, tail, rfl⟩ : ∃ d tail, raw = d :: tail := by
      cases hspells
      exact ⟨_, _, rfl⟩
    rw [List.cons_append] at hsplit
    obtain ⟨rfl, rfl⟩ := List.cons.inj hsplit
    rw [List.length_cons, Nat.add_sub_cancel, List.drop_left] at ih ⊢
    obtain ⟨htext, hleftmost⟩ := ih
    have htake : (c :: (tail ++ behind)).take (tail.length + 1) = c :: tail := by simp
    rw [htake, ofPieces]
    constructor
    · rw [text, htext]
      rfl
    · exact ⟨hspells, quiet_nil _, hleftmost⟩
  | case3 c rest hat ih =>
    obtain ⟨htext, hleftmost⟩ := ih
    rw [ofPieces]
    constructor
    · rw [text_prepend, htext, List.singleton_append]
    · apply leftmost_prepend hleftmost
      rw [htext]
      exact tokenAt?_eq_none_iff.mp hat

/-- A template is cut at its leftmost tokens in one way. -/
theorem eq_ofPieces {cut : Cut} (h : cut.Leftmost) : cut = ofPieces (pieces cut.text) := by
  induction cut with
  | last literal =>
    have hpieces := pieces_quiet h
    rw [List.append_nil] at hpieces
    rw [text, hpieces, ofPieces_append]
    simp [pieces, ofPieces, prepend]
  | token literal name raw more ih =>
    obtain ⟨hspells, hquiet, hmore⟩ := h
    rw [text, pieces_quiet hquiet, ofPieces_append, pieces_token hspells, ofPieces, ← ih hmore]
    simp [prepend]

theorem fill_of_no_name {slots : Slots} {cut : Cut} (h : ∀ slot ∈ slots, slot.1 ∉ cut.names) :
    cut.fill slots = cut.text := by
  induction cut with
  | last literal => rfl
  | token literal name raw more ih =>
    have hnone : slots.value? name = none := by
      apply Slots.value?_eq_none
      intro slot hslot heq
      exact h slot hslot (heq ▸ List.mem_cons_self)
    have hmore : more.fill slots = more.text :=
      ih fun slot hslot hmem => h slot hslot (List.mem_cons_of_mem name hmem)
    rw [fill, hnone, hmore]
    rfl

/-- A value stands in the text as it is. -/
theorem infix_fill {slots : Slots} {cut : Cut} {name value : Text} (hname : name ∈ cut.names)
    (hvalue : slots.value? name = some value) : value <:+: cut.fill slots := by
  induction cut with
  | last literal => cases hname
  | token literal other raw more ih =>
    rw [fill]
    rcases List.mem_cons.mp hname with rfl | hname
    · rw [hvalue]
      exact ⟨literal, more.fill slots, by simp⟩
    · have hmore := ih hname
      rw [← List.append_assoc]
      exact hmore.trans (List.suffix_append _ _).isInfix

end Cut

/-- Some token of the template has the name. -/
def HasToken (name template : Text) : Prop := ∃ raw, .token name raw ∈ pieces template

/-- A value stands in the text of every template that has a token for it. -/
theorem infix_render {template name value : Text} {slots : Slots} (h : HasToken name template)
    (hvalue : slots.value? name = some value) : value <:+: render template slots := by
  obtain ⟨raw, hmem⟩ := h
  obtain ⟨before, after, hsplit⟩ := List.append_of_mem hmem
  have hfill : (Piece.token name raw).fill slots = value := congrArg (Option.getD · raw) hvalue
  unfold render
  rw [hsplit, List.flatMap_append, List.flatMap_cons, hfill]
  exact ⟨before.flatMap (Piece.fill slots), after.flatMap (Piece.fill slots), by simp⟩

/-- The text is the template filled in, with the given value under the name. -/
def Filled (template name value text : Text) : Prop :=
  ∃ slots : Slots, text = render template slots ∧ slots.value? name = some value

theorem Filled.infix {template name value text : Text} (h : Filled template name value text)
    (htoken : HasToken name template) : value <:+: text := by
  obtain ⟨slots, rfl, hvalue⟩ := h
  exact infix_render htoken hvalue

end Stub

namespace ControllerFile

/-- The values that the class stub is filled in with, from the actions and texts of the methods. -/
def classSlots (s : Settings) (c : Controller) (e : Option Entity) (methods : List (Text × Text)) :
    Stub.Slots :=
  let model := c.modelName
  [("namespace", ClassNames.controllerSpace s c.space), ("class", c.className),
   ("model", model), ("modelClass", Words.studly model ++ "::class"),
   ("resourceClass", ClassNames.resourceClass model ++ "::class"),
   ("allowedFilters", AllowList.filtersText e),
   ("allowedSorts", AllowList.sortsText e s.sortableColumns),
   ("allowedIncludes", AllowList.includesText e),
   ("methods", methodBlock (methods.map (·.2))),
   ("imports", (imports s c e (methods.map (·.1))).render)]

theorem artifact_content (s : Settings) (c : Controller) (e : Option Entity) (stub : Text)
    (methods : List (Text × Text)) :
    (artifact s c e stub methods).content = Stub.render stub (classSlots s c e methods) :=
  rfl

theorem classSlots_methods (s : Settings) (c : Controller) (e : Option Entity)
    (methods : List (Text × Text)) :
    (classSlots s c e methods).value? "methods" = some (methodBlock (methods.map (·.2))) :=
  rfl

end ControllerFile

/-- A template is cut at its leftmost tokens in one way, before there are any values. Filling it in
gives the literal text with, in the place of each token, the value for its name if there is one
and the token itself otherwise, so every value that counts stands in the text as it is. Values for
other names change nothing. The class stub of a controller is filled in so, with all of its methods
as one value. -/
theorem Stub.render_along_cut (template : Text) :
    ∃ cut : Stub.Cut, (cut.text = template ∧ cut.Leftmost) ∧
      (∀ other : Stub.Cut, other.text = template → other.Leftmost → other = cut) ∧
      (∀ slots, Stub.render template slots = cut.fill slots) ∧
      (∀ (slots : Stub.Slots) name value, name ∈ cut.names → slots.value? name = some value →
        value <:+: Stub.render template slots) ∧
      (∀ slots : Stub.Slots, (∀ slot ∈ slots, slot.1 ∉ cut.names) →
        Stub.render template slots = template) ∧
      ∀ s c e methods,
        (ControllerFile.artifact s c e template methods).content =
            cut.fill (ControllerFile.classSlots s c e methods) ∧
          (ControllerFile.classSlots s c e methods).value? "methods" =
            some (ControllerFile.methodBlock (methods.map (·.2))) := by
  obtain ⟨htext, hleftmost⟩ := Stub.Cut.ofPieces_spec template
  have hrender : ∀ slots, Stub.render template slots =
      (Stub.Cut.ofPieces (Stub.pieces template)).fill slots := by
    intro slots
    rw [Stub.Cut.fill_ofPieces]
    rfl
  refine ⟨_, ⟨htext, hleftmost⟩, ?unique, hrender, ?verbatim, ?unnamed, ?controller⟩
  case unique =>
    intro other hother hleft
    have heq := Stub.Cut.eq_ofPieces hleft
    rwa [hother] at heq
  case verbatim =>
    intro slots name value hname hvalue
    rw [hrender]
    exact Stub.Cut.infix_fill hname hvalue
  case unnamed =>
    intro slots hslots
    rw [hrender, Stub.Cut.fill_of_no_name hslots, htext]
  case controller =>
    intro s c e methods
    constructor
    · rw [ControllerFile.artifact_content, hrender]
    · exact ControllerFile.classSlots_methods s c e methods

end ApiScaffold
