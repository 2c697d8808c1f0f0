import ApiScaffold.Proofs.DraftErrors
import ApiScaffold.Proofs.ReadBackSettings

/-!
# Columns in shorthand

Every word of a shorthand tells something of its own: a modifier tells an attribute or that the
column may be null, and a type tells its name and the attributes that its arguments stand for. What
all the words come to is said here at once, whatever the words are, the ones that are refused
included. The main theorem is that a column which is read from a shorthand is read again from the
mapping that spells it out, since no word tells an attribute that would be taken for the type there.
-/
namespace ApiScaffold

open Text

/-! ## Columns from their parts -/

/-- The definition of a column as a mapping: its type, whether it may be null, its attributes. -/
def Column.writtenOut (c : Column) : Mapping :=
  (.text "type", .text c.dataType) :: (.text "nullable", .bool c.nullable) :: c.attributes

theorem Column.attributesOf_of_named {attributes : Mapping} (h : attributes.Named) :
    Column.attributesOf (.mapping attributes) = .ok attributes := by
  obtain ⟨es, hes⟩ : ∃ es : List (Text × Value), attributes = es.map fun e => (.text e.1, e.2) := by
    have htexts := h.texts
    clear h
    induction attributes with
    | nil => exact ⟨[], rfl⟩
    | cons p rest ih =>
      obtain ⟨htext, hrest⟩ := List.forall_mem_cons.mp htexts
      obtain ⟨name, hname⟩ := htext
      obtain ⟨es, rfl⟩ := ih hrest
      exact ⟨(name, p.2) :: es, by rw [List.map_cons, ← hname]⟩
  have hkeys : (es.map Prod.fst).Nodup := by
    have hnodup := h.nodup
    rw [hes, List.map_map] at hnodup
    exact List.Nodup.of_map Value.text (by rwa [List.map_map])
  have hentries : Check.entries Except.ok (.mapping attributes) = .ok es := by
    rw [hes]
    exact Check.entries_of_nodup
      (List.forall₂_map_left_iff.mpr (List.forall₂_same.mpr fun _ _ => ⟨rfl, rfl⟩)) hkeys
  unfold Column.attributesOf
  rw [hentries, hes]
  rfl

namespace Draft

theorem make_column_eq_ok_iff {name dataType : Text} {nullable : Bool} {attributes : Mapping}
    {c : Column} (htype : dataType ≠ []) (h : attributes.Named) :
    make name dataType nullable attributes = .ok c ↔
      name ≠ [] ∧ c = { name, dataType, nullable, attributes } := by
  have hmake : Column.make name dataType nullable attributes =
      (Checked.both ((Checked.both ((Check.nonEmptyText (.text name)).below (.name "name"))
        (.ok (dataType, nullable, attributes))).map fun (name, dataType, nullable, attributes) =>
          ({ name, dataType, nullable, attributes } : Column)) (.ok ())).map (·.1) := by
    have hdata : Check.field "data_type" (some ("string" : Text)) Check.nonEmptyText
        [(.text "name", .text name), (.text "data_type", .text dataType),
          (.text "nullable", .bool nullable), (.text "attributes", .mapping attributes)] =
          .ok dataType := congrArg (Checked.below _) (Setting.nonEmptyText_text htype)
    have hattributes : Check.field "attributes" (some []) Column.attributesOf
        [(.text "name", .text name), (.text "data_type", .text dataType),
          (.text "nullable", .bool nullable), (.text "attributes", .mapping attributes)] =
          .ok attributes := congrArg (Checked.below _) (Column.attributesOf_of_named h)
    unfold Column.make Column.check Check.record Column.read
    simp only
    rw [hdata, hattributes]
    rfl
  unfold make
  rw [Except.mapError_eq_ok_iff, hmake]
  cases name with
  | nil => simp [Check.nonEmptyText, Check.text, Checked.refuse, Checked.below, Checked.both,
      Except.map]
  | cons first rest => simp [Check.nonEmptyText, Check.text, Checked.below, Checked.both,
      Except.map, eq_comm]

/-! ## One word -/

namespace Word

/-- The part of a word in front of its colon: the name of a modifier or of a type. -/
def head (word : Text) : Text := (cutAt ':' word).1

def keyword (word : Text) : Text := lower (head word)

/-- The part of a word behind its colon, if it has one. -/
def argument (word : Text) : Text := (cutAt ':' word).2.getD []

def isModifier (word : Text) : Bool := modifiers.contains (keyword word)

def isNullable (word : Text) : Bool := keyword word = "nullable"

/-- The value that a modifier tells. -/
def value (word : Text) : Value :=
  if argument word = [] then .bool true else .text (argument word)

def modification (word : Text) : Mapping :=
  if isNullable word then [] else [(.text (keyword word), value word)]

/-- The attributes that a word tells, if its arguments can be read. -/
def told (word : Text) : Except Misuse Mapping :=
  if isModifier word then .ok (modification word)
  else if argument word = [] then .ok []
  else typeArguments (keyword word) (argument word)

/-- The attributes that the arguments of a type stand for. -/
def typeAttributes : List Text := ["values", "arguments", "precision", "scale", "length"]

theorem isModifier_of_isNullable {word : Text} (h : isNullable word = true) :
    isModifier word = true := by
  unfold isModifier
  rw [of_decide_eq_true h]
  decide

/-- The arguments of a type stand for one attribute, or for a precision and a scale. -/
theorem typeArguments_cases {keyword argument : Text} {found : Mapping}
    (h : typeArguments keyword argument = .ok found) :
    (∃ name ∈ typeAttributes, ∃ v, found = [(.text name, v)]) ∨
      ∃ precision scale, found = [(.text "precision", precision), (.text "scale", scale)] := by
  unfold typeArguments at h
  dsimp only at h
  by_cases hlist : listTypes.contains keyword = true
  · rw [if_pos hlist] at h
    cases h
    exact Or.inl ⟨"values", by decide, _, rfl⟩
  rw [if_neg hlist] at h
  split at h
  · cases h
    exact Or.inl ⟨"arguments", by decide, _, rfl⟩
  · split_ifs at h
    · obtain ⟨precision, -, h⟩ := bind_eq_ok_iff.mp h
      split at h
      · cases h
        exact Or.inl ⟨"precision", by decide, precision, rfl⟩
      · obtain ⟨scale, -, h⟩ := bind_eq_ok_iff.mp h
        cases h
        exact Or.inr ⟨precision, scale, rfl⟩
    · obtain ⟨length, -, h⟩ := bind_eq_ok_iff.mp h
      cases h
      exact Or.inl ⟨"length", by decide, length, rfl⟩
    · cases h
      exact Or.inl ⟨"arguments", by decide, _, rfl⟩

section
variable {word : Text} {found : Mapping} {p : Value × Value}

/-- A modifier tells an attribute of its own name, and a type tells none of these. -/
theorem key_of_told (h : told word = .ok found) (hp : p ∈ found) :
    (isModifier word = true ∧ isNullable word = false ∧ p.1 = .text (keyword word)) ∨
      isModifier word = false ∧ ∃ name ∈ typeAttributes, p.1 = .text name := by
  unfold told at h
  split_ifs at h with hmodifier hargument
  · cases h
    unfold modification at hp
    by_cases hnullable : isNullable word = true
    · rw [if_pos hnullable] at hp
      cases hp
    · rw [if_neg hnullable] at hp
      rw [List.mem_singleton.mp hp]
      exact Or.inl ⟨hmodifier, Bool.eq_false_iff.mpr hnullable, rfl⟩
  · cases h
    cases hp
  · refine Or.inr ⟨Bool.eq_false_iff.mpr hmodifier, ?_⟩
    obtain ⟨name, hname, v, rfl⟩ | ⟨precision, scale, rfl⟩ := typeArguments_cases h
    · rw [List.mem_singleton.mp hp]
      exact ⟨name, hname, rfl⟩
    · rcases List.mem_pair.mp hp with rfl | rfl
      · exact ⟨"precision", by decide, rfl⟩
      · exact ⟨"scale", by decide, rfl⟩

theorem text_of_told (h : told word = .ok found) (hp : p ∈ found) :
    ∃ name, p.1 = .text name := by
  obtain ⟨-, -, hkey⟩ | ⟨-, name, -, hkey⟩ := key_of_told h hp
  · exact ⟨_, hkey⟩
  · exact ⟨name, hkey⟩

/-- No attribute is told by a modifier and by a type. -/
theorem typeAttributes_disjoint : ∀ name ∈ typeAttributes, name ∉ modifiers := by
  decide

/-- No word tells an attribute with the name of a part of a column. -/
theorem key_ne_of_told (h : told word = .ok found) (hp : p ∈ found) :
    p.1 ≠ .text "type" ∧ p.1 ≠ .text "nullable" := by
  obtain ⟨hmodifier, hnullable, hkey⟩ | ⟨-, name, hname, hkey⟩ := key_of_told h hp
  · rw [hkey]
    constructor
    · rintro heq
      rw [isModifier, Value.text.inj heq] at hmodifier
      exact absurd hmodifier (by decide)
    · rintro heq
      rw [isNullable, Value.text.inj heq] at hnullable
      exact absurd hnullable (by decide)
  · have hreserved : ∀ name ∈ typeAttributes, name ≠ "type" ∧ name ≠ "nullable" := by decide
    obtain ⟨htype, hnullable⟩ := hreserved name hname
    rw [hkey]
    exact ⟨fun heq => htype (Value.text.inj heq), fun heq => hnullable (Value.text.inj heq)⟩

theorem told_ok_iff : (∃ found, told word = .ok found) ↔ WordInOrder word := by
  have horder : WordInOrder word ↔ (isModifier word = false →
      ∀ t ∈ numericParts (keyword word) (argument word), ReadableNumber t) := Iff.rfl
  rw [horder]
  unfold told
  cases isModifier word with
  | true => simp
  | false =>
    by_cases hargument : argument word = []
    · simp [hargument, numericParts_nil]
    · simp [hargument, typeArguments_ok_iff]

end

end Word

open Word

/-! ## All words -/

/-- The words of a shorthand that are types. -/
def typeWords (words : List Text) : List Text := words.filter fun word => !isModifier word

/-- A shorthand after one more word that tells the given attributes. -/
def Shorthand.tell (s : Shorthand) (word : Text) (found : Mapping) : Shorthand where
  dataType := if isModifier word then s.dataType else head word
  nullable := s.nullable || isNullable word
  attributes := Mapping.insertAll found s.attributes

/-- A shorthand after words that tell the given attributes. -/
def Shorthand.tellAll (s : Shorthand) (words : List Text) (founds : List Mapping) : Shorthand where
  dataType := ((typeWords words).getLast?.map head).getD s.dataType
  nullable := s.nullable || words.any isNullable
  attributes := Mapping.insertAll founds.flatten s.attributes

section
variable {column : Text} {s s' : Shorthand} {word : Text} {words : List Text}

/-- A type is refused behind one with a name. Any other word tells what it tells on its own. -/
theorem add_eq : s.add column word =
    if isModifier word = false ∧ s.dataType ≠ [] then
      .error (.draft (.twoTypes column s.dataType (head word)))
    else ((told word).mapError .misuse).map (s.tell word) := by
  have hadd : s.add column word =
      if isModifier word then
        if isNullable word then .ok { s with nullable := true }
        else .ok { s with
          attributes := Mapping.insert (.text (keyword word)) (value word) s.attributes }
      else if s.dataType ≠ [] then .error (.draft (.twoTypes column s.dataType (head word)))
      else if argument word = [] then .ok { s with dataType := head word }
      else ((typeArguments (keyword word) (argument word)).mapError .misuse).map fun found =>
        { s with dataType := head word, attributes := Mapping.insertAll found s.attributes } := by
    unfold Shorthand.add isNullable isModifier value keyword argument head
    generalize cutAt ':' word = cut
    obtain ⟨front, rest⟩ := cut
    simp only [decide_eq_true_eq]
    cases typeArguments (lower front) (rest.getD []) <;> rfl
  rw [hadd]
  unfold told Shorthand.tell
  cases hmodifier : isModifier word with
  | true =>
    unfold modification
    cases isNullable word <;> simp [Mapping.insertAll, Except.mapError, Except.map]
  | false =>
    have hnullable : isNullable word = false := by
      rw [← Bool.not_eq_true]
      intro hnullable
      rw [isModifier_of_isNullable hnullable] at hmodifier
      cases hmodifier
    by_cases htype : s.dataType = []
    · by_cases hargument : argument word = []
      · simp [htype, hargument, hnullable, Mapping.insertAll, Except.mapError, Except.map]
      · cases typeArguments (keyword word) (argument word) <;>
          simp [htype, hargument, hnullable, Except.mapError, Except.map]
    · simp [htype]

theorem add_eq_ok_iff : s.add column word = .ok s' ↔
    (isModifier word = false → s.dataType = []) ∧
      ∃ found, told word = .ok found ∧ s' = s.tell word found := by
  rw [add_eq]
  by_cases htype : isModifier word = false ∧ s.dataType ≠ []
  · simp [htype]
  · have hfree : isModifier word = false → s.dataType = [] := by simpa using htype
    rw [if_neg htype, and_iff_right hfree]
    cases told word <;> simp [Except.mapError, Except.map, eq_comm]

/-- All types but the last are without a name. -/
def OnlyLastNamed (words : List Text) : Prop := ∀ word ∈ (typeWords words).dropLast, head word = []

theorem typeWords_cons_modifier (h : isModifier word = true) (words : List Text) :
    typeWords (word :: words) = typeWords words := by
  simp [typeWords, h]

theorem typeWords_cons_type (h : isModifier word = false) (words : List Text) :
    typeWords (word :: words) = word :: typeWords words := by
  simp [typeWords, h]

theorem tellAll_cons (found : Mapping) (founds : List Mapping) :
    (s.tell word found).tellAll words founds = s.tellAll (word :: words) (found :: founds) := by
  have htype : ((typeWords words).getLast?.map head).getD (s.tell word found).dataType =
      ((typeWords (word :: words)).getLast?.map head).getD s.dataType := by
    cases hmodifier : isModifier word with
    | true => simp [Shorthand.tell, typeWords_cons_modifier hmodifier, hmodifier]
    | false =>
      rw [typeWords_cons_type hmodifier, List.getLast?_cons]
      cases (typeWords words).getLast? <;> simp [Shorthand.tell, hmodifier]
  unfold Shorthand.tellAll
  rw [htype]
  simp [Shorthand.tell, Mapping.insertAll, Bool.or_assoc]

/-- A word and the words behind it fit when they fit as one list. -/
theorem onlyLastNamed_cons_iff (found : Mapping) :
    ((isModifier word = false → s.dataType = []) ∧
      (typeWords words ≠ [] → (s.tell word found).dataType = []) ∧ OnlyLastNamed words) ↔
    (typeWords (word :: words) ≠ [] → s.dataType = []) ∧ OnlyLastNamed (word :: words) := by
  unfold OnlyLastNamed
  cases hmodifier : isModifier word with
  | true => simp [Shorthand.tell, typeWords_cons_modifier hmodifier, hmodifier]
  | false =>
    rw [typeWords_cons_type hmodifier]
    cases htypes : typeWords words with
    | nil => simp
    | cons first more => simp [Shorthand.tell, hmodifier]

/-- Words are taken in one after the other when the arguments of each can be read and no type
comes behind one with a name. Together they tell what each of them tells. -/
theorem addAll_eq_ok_iff : s.addAll column words = .ok s' ↔
    (typeWords words ≠ [] → s.dataType = []) ∧ OnlyLastNamed words ∧
      ∃ founds, List.Forall₂ (fun word found => told word = .ok found) words founds ∧
        s' = s.tellAll words founds := by
  induction words generalizing s with
  | nil =>
    have hnamed : OnlyLastNamed [] := fun word hword => by cases hword
    simp [Shorthand.addAll, hnamed, typeWords, Shorthand.tellAll, Mapping.insertAll, eq_comm]
  | cons word rest ih =>
    have hbind : s.addAll column (word :: rest) = .ok s' ↔
        ∃ next, s.add column word = .ok next ∧ next.addAll column rest = .ok s' := bind_eq_ok_iff
    rw [hbind]
    simp only [add_eq_ok_iff, ih, List.forall₂_cons_left_iff]
    constructor
    · rintro ⟨next, ⟨hfirst, found, hfound, rfl⟩, hlater, hnamed, founds, hfounds, rfl⟩
      obtain ⟨htype, honly⟩ := (onlyLastNamed_cons_iff found).mp ⟨hfirst, hlater, hnamed⟩
      exact ⟨htype, honly, found :: founds, ⟨found, founds, hfound, hfounds, rfl⟩,
        tellAll_cons _ _⟩
    · rintro ⟨htype, honly, -, ⟨found, founds, hfound, hfounds, rfl⟩, rfl⟩
      obtain ⟨hfirst, hlater, hnamed⟩ := (onlyLastNamed_cons_iff found).mpr ⟨htype, honly⟩
      exact ⟨_, ⟨hfirst, found, hfound, rfl⟩, hlater, hnamed, founds, hfounds,
        (tellAll_cons _ _).symm⟩

end

/-! ## Columns -/

/-- The column with the given name that a shorthand comes to. -/
def Shorthand.toColumn (s : Shorthand) (name : Text) : Column where
  name := name
  dataType := if s.dataType = [] then defaultType else s.dataType
  nullable := s.nullable
  attributes := s.attributes

/-- A column from the words of its shorthand. -/
def ofWords (name : Text) (words : List Text) : Except Failure Column :=
  (({} : Shorthand).addAll name words).bind fun s =>
    make name (if s.dataType = [] then defaultType else s.dataType) s.nullable s.attributes

theorem column_text (name t : Text) : column name (.text t) = ofWords name (tokens t) := rfl

section
variable {name t : Text} {words : List Text} {founds : List Mapping} {c : Column}
  {p : Value × Value}

theorem exists_told_of_mem
    (h : List.Forall₂ (fun word found => told word = .ok found) words founds)
    (hp : p ∈ founds.flatten) : ∃ word ∈ words, ∃ found, told word = .ok found ∧ p ∈ found := by
  induction h with
  | nil => cases hp
  | @cons word found words founds htold _ ih =>
    rw [List.flatten_cons, List.mem_append] at hp
    rcases hp with hp | hp
    · exact ⟨word, List.mem_cons_self, found, htold, hp⟩
    · obtain ⟨later, hlater, hfound⟩ := ih hp
      exact ⟨later, List.mem_cons_of_mem _ hlater, hfound⟩

theorem named_told (h : List.Forall₂ (fun word found => told word = .ok found) words founds) :
    (Mapping.ofPairs founds.flatten).Named := by
  refine Mapping.named_ofPairs fun p hp => ?_
  obtain ⟨word, -, found, htold, hmem⟩ := exists_told_of_mem h hp
  exact text_of_told htold hmem

/-- What reading the words of a shorthand comes to when nothing is wrong. -/
theorem ofWords_eq_ok_iff : ofWords name words = .ok c ↔ name ≠ [] ∧ OnlyLastNamed words ∧
    ∃ founds, List.Forall₂ (fun word found => told word = .ok found) words founds ∧
      c = (({} : Shorthand).tellAll words founds).toColumn name := by
  have hbind : ofWords name words = .ok c ↔ ∃ s, ({} : Shorthand).addAll name words = .ok s ∧
      make name (if s.dataType = [] then defaultType else s.dataType) s.nullable s.attributes =
        .ok c := bind_eq_ok_iff
  have hmake : ∀ founds, List.Forall₂ (fun word found => told word = .ok found) words founds →
      (make name (if (({} : Shorthand).tellAll words founds).dataType = [] then defaultType
          else (({} : Shorthand).tellAll words founds).dataType)
        (({} : Shorthand).tellAll words founds).nullable
        (({} : Shorthand).tellAll words founds).attributes = .ok c ↔
      name ≠ [] ∧ c = (({} : Shorthand).tellAll words founds).toColumn name) := by
    intro founds hfounds
    refine make_column_eq_ok_iff ?_ (named_told hfounds)
    split_ifs with htype
    · decide
    · exact htype
  rw [hbind]
  simp only [addAll_eq_ok_iff, implies_true, true_and]
  constructor
  · rintro ⟨s, ⟨honly, founds, hfounds, rfl⟩, hc⟩
    obtain ⟨hname, rfl⟩ := (hmake founds hfounds).mp hc
    exact ⟨hname, honly, founds, hfounds, rfl⟩
  · rintro ⟨hname, honly, founds, hfounds, rfl⟩
    exact ⟨_, ⟨honly, founds, hfounds, rfl⟩, (hmake founds hfounds).mpr ⟨hname, rfl⟩⟩

theorem named_attributes (h : ofWords name words = .ok c) : c.attributes.Named := by
  obtain ⟨-, -, founds, hfounds, rfl⟩ := ofWords_eq_ok_iff.mp h
  exact named_told hfounds

/-- No attribute of a column in shorthand has the name of another part of a column. -/
theorem key_ne_of_mem_attributes (h : ofWords name words = .ok c) (hp : p ∈ c.attributes) :
    p.1 ≠ .text "type" ∧ p.1 ≠ .text "nullable" := by
  obtain ⟨-, -, founds, hfounds, rfl⟩ := ofWords_eq_ok_iff.mp h
  obtain ⟨q, hq, hkey⟩ := Mapping.exists_key_of_mem_ofPairs hp
  obtain ⟨word, -, found, htold, hmem⟩ := exists_told_of_mem hfounds hq
  rw [← hkey]
  exact key_ne_of_told htold hmem

/-! ## Columns that are written out -/

theorem column_mapping {pairs : Mapping} {dataType : Text} {nullable : Bool}
    (htype : Mapping.getText? "type" pairs = some (.text dataType))
    (hnullable : Mapping.getText? "nullable" pairs = some (.bool nullable)) :
    column name (.mapping pairs) = make name dataType nullable
      (Mapping.erase (.text "nullable") (Mapping.erase (.text "type") pairs)) := by
  unfold column
  dsimp only
  rw [htype, hnullable]
  rfl

theorem named_writtenOut (h : ofWords name words = .ok c) : c.writtenOut.Named := by
  have hattributes := named_attributes h
  have htype : Value.text "type" ∉ c.attributes.map Prod.fst := by
    intro hmem
    obtain ⟨p, hp, hkey⟩ := List.mem_map.mp hmem
    exact (key_ne_of_mem_attributes h hp).1 hkey
  have hnullable : Value.text "nullable" ∉ c.attributes.map Prod.fst := by
    intro hmem
    obtain ⟨p, hp, hkey⟩ := List.mem_map.mp hmem
    exact (key_ne_of_mem_attributes h hp).2 hkey
  constructor
  · exact List.forall_mem_cons.mpr ⟨⟨"type", rfl⟩, List.forall_mem_cons.mpr
      ⟨⟨"nullable", rfl⟩, hattributes.texts⟩⟩
  · unfold Column.writtenOut
    rw [List.map_cons, List.map_cons, List.nodup_cons, List.nodup_cons, List.mem_cons, not_or]
    exact ⟨⟨by simp, htype⟩, hnullable, hattributes.nodup⟩

theorem erase_writtenOut (h : ofWords name words = .ok c) :
    Mapping.erase (.text "nullable") (Mapping.erase (.text "type") c.writtenOut) =
      c.attributes := by
  have hkept : ∀ p ∈ c.attributes, (!p.1.sameKey (.text "type")) = true ∧
      (!p.1.sameKey (.text "nullable")) = true := by
    intro p hp
    obtain ⟨htype, hnullable⟩ := key_ne_of_mem_attributes h hp
    simp only [Bool.not_eq_true', ← Bool.not_eq_true, Value.sameKey_text]
    exact ⟨htype, hnullable⟩
  have htype : Mapping.erase (.text "type") c.writtenOut =
      (.text "nullable", .bool c.nullable) :: c.attributes := by
    have hrest := List.filter_eq_self.mpr fun p hp => (hkept p hp).1
    exact congrArg ((Value.text "nullable", Value.bool c.nullable) :: ·) hrest
  rw [htype]
  exact List.filter_eq_self.mpr fun p hp => (hkept p hp).2

/-- A column that is read from a shorthand has no attribute with the name of another part of a
column, and it is read again from the mapping that spells out its type, whether it may be null and
its attributes. In another order of that mapping the attributes come in another order. -/
theorem column_writtenOut (h : column name (.text t) = .ok c) :
    (∀ p ∈ c.attributes, p.1 ≠ .text "type" ∧ p.1 ≠ .text "nullable") ∧
      column name (.mapping c.writtenOut) = .ok c ∧
      ∀ pairs, pairs.Perm c.writtenOut → ∃ attributes, attributes.Perm c.attributes ∧
        column name (.mapping pairs) = .ok { c with attributes } := by
  rw [column_text] at h
  obtain ⟨hname, hc, htype⟩ : name ≠ [] ∧ c.name = name ∧ c.dataType ≠ [] := by
    obtain ⟨hname, -, founds, -, rfl⟩ := ofWords_eq_ok_iff.mp h
    refine ⟨hname, rfl, ?_⟩
    unfold Shorthand.toColumn
    dsimp only
    split_ifs with htype
    · decide
    · exact htype
  have hread : ∀ pairs, pairs.Perm c.writtenOut → column name (.mapping pairs) = .ok { c with
      attributes := Mapping.erase (.text "nullable") (Mapping.erase (.text "type") pairs) } := by
    intro pairs hperm
    have hnamed := (named_writtenOut h).perm hperm
    have hdataType : (Value.text "type", Value.text c.dataType) ∈ pairs :=
      hperm.mem_iff.mpr List.mem_cons_self
    have hnullable : (Value.text "nullable", Value.bool c.nullable) ∈ pairs :=
      hperm.mem_iff.mpr (List.mem_cons_of_mem _ List.mem_cons_self)
    have herased : (Mapping.erase (.text "nullable") (Mapping.erase (.text "type") pairs)).Perm
        c.attributes := by
      rw [← erase_writtenOut h]
      exact (hperm.filter _).filter _
    rw [column_mapping (hnamed.getText?_eq_some_iff.mpr hdataType)
      (hnamed.getText?_eq_some_iff.mpr hnullable), make_column_eq_ok_iff htype
      ((named_attributes h).perm herased), hc]
    exact ⟨hname, rfl⟩
  refine ⟨fun p hp => key_ne_of_mem_attributes h hp, ?_, fun pairs hperm => ?_⟩
  · rw [hread _ (List.Perm.refl _), erase_writtenOut h]
  · refine ⟨_, ?_, hread pairs hperm⟩
    rw [← erase_writtenOut h]
    exact (hperm.filter _).filter _

end

/-- A column with attributes from a type and from a modifier. -/
def priceColumn : Column where
  name := "price"
  dataType := "Decimal"
  nullable := true
  attributes := [(.text "default", .text "0"), (.text "precision", .int 8), (.text "scale", .int 2)]

theorem priceColumn_writtenOut :
    column "price" (.text "default:0 Decimal:8,2 NULLABLE") = .ok priceColumn ∧
      (∀ p ∈ priceColumn.attributes, p.1 ≠ .text "type" ∧ p.1 ≠ .text "nullable") ∧
      column "price" (.mapping priceColumn.writtenOut) = .ok priceColumn ∧
      ∀ pairs, pairs.Perm priceColumn.writtenOut →
        ∃ attributes, attributes.Perm priceColumn.attributes ∧
          column "price" (.mapping pairs) = .ok { priceColumn with attributes } := by
  have hread : column "price" (.text "default:0 Decimal:8,2 NULLABLE") = .ok priceColumn := rfl
  exact ⟨hread, column_writtenOut hread⟩

end Draft

end ApiScaffold
