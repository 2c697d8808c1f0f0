import ApiScaffold.Draft.Document
import ApiScaffold.Proofs.CleanChecks
import ApiScaffold.Proofs.ReadableNumbers
import ApiScaffold.Proofs.Results

/-!
# What reading a draft may fail with

Reading a draft is to fail with an error of the draft and with nothing else. Three things are
read before anything checks them: the sections of settings, which are taken for pairs whatever
they are; arguments that look like numbers; and names that are no texts, which cannot be written
when a long integer is in them. Where one of these is not in order, reading never succeeds, and
it may end in a misuse; where all of them are, every failure is an error of the draft.
-/
namespace ApiScaffold

open Text

/-- A reading that comes to a result only if its input is in order, and otherwise fails with a
declared failure, or with a misuse if the input is not in order. -/
def Reads {α : Type} (declared : Failure → Prop) (inOrder : Prop) : Except Failure α → Prop
  | .ok _ => inOrder
  | .error f => declared f ∨ ¬inOrder ∧ ∃ m, f = .misuse m

namespace Reads

variable {α β : Type} {declared declared' : Failure → Prop} {p q : Prop} {x : Except Failure α}

theorem congr (h : Reads declared p x) (hpq : p ↔ q) : Reads declared q x := by
  rwa [← propext hpq]

theorem of_declared {f : Failure} (h : declared f) :
    Reads declared p (.error f : Except Failure α) :=
  Or.inl h

/-- One reading after the other is in order when both are. -/
theorem bind {f : α → Except Failure β} (hx : Reads declared p x)
    (hf : ∀ a, x = .ok a → Reads declared q (f a)) : Reads declared (p ∧ q) (x.bind f) := by
  cases x with
  | error e => exact hx.imp id fun h => ⟨fun hboth => h.1 hboth.1, h.2⟩
  | ok a => exact (hf a rfl).congr (and_iff_right hx).symm

theorem map (f : α → β) (hx : Reads declared p x) : Reads declared p (x.map f) := by
  cases x with
  | error e => exact hx
  | ok a => exact hx

/-- Failures may be told in other words, as long as misuse is left alone. -/
theorem mapError {f : Failure → Failure} (hx : Reads declared p x)
    (hdeclared : ∀ e, declared e → declared' (f e)) (hmisuse : ∀ m, f (.misuse m) = .misuse m) :
    Reads declared' p (x.mapError f) := by
  cases x with
  | ok a => exact hx
  | error e =>
    refine hx.imp (hdeclared e) fun h => ⟨h.1, ?_⟩
    obtain ⟨m, rfl⟩ := h.2
    exact ⟨m, hmisuse m⟩

/-- A step that fails only by misuse. -/
theorem of_misuse (x : Except Misuse α) : Reads declared (∃ a, x = .ok a) (x.mapError .misuse) := by
  cases x with
  | ok a => exact ⟨a, rfl⟩
  | error m => exact Or.inr ⟨fun ⟨a, ha⟩ => (by cases ha), m, rfl⟩

/-- A check without misuse whose issues are declared. -/
theorem of_clean {x : Checked α} (h : x.Clean) (hissues : ∀ found, declared (.issues found)) :
    Reads declared True (x.mapError .ofRefusal) := by
  cases x with
  | ok a => trivial
  | error e =>
    cases e with
    | issues found => exact Or.inl (hissues found)
    | misuse m => exact absurd rfl (h m)

end Reads

namespace Draft

theorem bind_eq_ok_iff {ε α β : Type} {x : Except ε α} {f : α → Except ε β} {b : β} :
    x >>= f = .ok b ↔ ∃ a, x = .ok a ∧ f a = .ok b := by
  cases x <;> simp [bind, Except.bind]

/-- The failure is an error of the draft. -/
def IsDraftError (f : Failure) : Prop := ∃ e, f = .draft e

/-- The failure becomes an error of the draft as soon as the whole model is known. -/
def IsModelError (f : Failure) : Prop := IsDraftError f ∨ ∃ found, f = .issues found

theorem isModelError_draft (e : DraftError) : IsModelError (.draft e) := Or.inl ⟨e, rfl⟩

theorem isModelError_issues (found : List Issue) : IsModelError (.issues found) :=
  Or.inr ⟨found, rfl⟩

theorem written_eq_ok_iff {v : Value} {t : Text} :
    v.written = .ok t ↔ v.hasLong = false ∧ v.display = t := by
  unfold Value.written
  cases v.hasLong <;> simp

theorem exists_written_eq_ok (v : Value) : (∃ t, v.written = .ok t) ↔ v.hasLong = false := by
  simp [written_eq_ok_iff]

theorem reads_written {declared : Failure → Prop} (v : Value) :
    Reads declared (v.hasLong = false) (v.written.mapError .misuse) :=
  (Reads.of_misuse v.written).congr (exists_written_eq_ok v)

theorem eq_display_of_written {v : Value} {t : Text}
    (h : v.written.mapError Failure.misuse = .ok t) : t = v.display := by
  unfold Value.written at h
  split_ifs at h <;> cases h
  rfl

/-! ### Columns -/

/-- The parts of an argument that a type takes for numbers if they look like numbers. -/
def numericParts (keyword argument : Text) : List Text :=
  let parts := ((splitOn ',' argument).map trim).filter (· ≠ [])
  if listTypes.contains keyword then []
  else if decimalTypes.contains keyword then parts.take 2
  else if lengthTypes.contains keyword ∧ parts.length = 1 then parts
  else []

theorem typeArguments_ok_iff (keyword argument : Text) :
    (∃ found, typeArguments keyword argument = .ok found) ↔
      ∀ t ∈ numericParts keyword argument, ReadableNumber t := by
  unfold typeArguments numericParts
  simp only [← numberOrText_ok_iff]
  generalize ((splitOn ',' argument).map trim).filter (· ≠ []) = parts
  generalize listTypes.contains keyword = isList, decimalTypes.contains keyword = isDecimal,
    lengthTypes.contains keyword = isLength
  cases isList with
  | true => simp
  | false =>
    rcases parts with _ | ⟨part, rest⟩
    · simp
    cases isDecimal with
    | true => rcases rest with _ | ⟨second, rest⟩ <;> simp [bind, Except.exists_bind_eq_ok]
    | false =>
      cases isLength with
      | true => rcases rest with _ | ⟨second, rest⟩ <;> simp [bind, Except.exists_bind_eq_ok]
      | false => simp

/-- A word of a shorthand has readable numbers where numbers are read. -/
def WordInOrder (word : Text) : Prop :=
  modifiers.contains (lower (cutAt ':' word).1) = false →
    ∀ t ∈ numericParts (lower (cutAt ':' word).1) ((cutAt ':' word).2.getD []), ReadableNumber t

instance (word : Text) : Decidable (WordInOrder word) :=
  inferInstanceAs (Decidable (_ → ∀ t ∈ numericParts _ _, ReadableNumber t))

theorem numericParts_nil (keyword : Text) : numericParts keyword [] = [] := by
  unfold numericParts
  have hparts : ((splitOn ',' []).map trim).filter (· ≠ []) = ([] : List Text) := rfl
  simp only [hparts, List.take_nil, ite_self]

theorem reads_add (column : Text) (s : Shorthand) (word : Text) :
    Reads IsModelError (WordInOrder word) (s.add column word) := by
  unfold Shorthand.add WordInOrder
  rcases cutAt ':' word with ⟨head, rest⟩
  simp only
  cases hmodifier : modifiers.contains (lower head) with
  | true =>
    simp only [if_true]
    split_ifs <;> exact False.elim
  | false =>
    simp only [Bool.false_eq_true, if_false, true_implies]
    split_ifs with htyped hempty
    · exact .of_declared (isModelError_draft _)
    · rw [hempty, numericParts_nil]
      exact fun t ht => by cases ht
    · have harguments : Reads IsModelError _ _ :=
        Reads.of_misuse (typeArguments (lower head) (rest.getD []))
      rw [typeArguments_ok_iff] at harguments
      cases hfound : typeArguments (lower head) (rest.getD []) with
      | error m => rw [hfound] at harguments; exact harguments
      | ok found => rw [hfound] at harguments; exact harguments

theorem reads_addAll (column : Text) (s : Shorthand) (words : List Text) :
    Reads IsModelError (∀ word ∈ words, WordInOrder word) (s.addAll column words) := by
  induction words generalizing s with
  | nil => exact fun word hword => by cases hword
  | cons word rest ih =>
    refine ((reads_add column s word).bind fun s' _ => ih s').congr ?_
    exact List.forall_mem_cons.symm

/-- A column can be read as far as nothing but the checks is against it: a given type can be
written, and the words of a shorthand are in order. -/
def ColumnInOrder : Value → Prop
  | .mapping pairs => ∀ v, Mapping.getText? "type" pairs = some v → v.hasLong = false
  | .text t => ∀ word ∈ tokens t, WordInOrder word
  | _ => True

theorem reads_make (name dataType : Text) (nullable : Bool) (attributes : Mapping) :
    Reads IsModelError True (make name dataType nullable attributes) :=
  Reads.of_clean (Column.make_clean name dataType nullable attributes) isModelError_issues

theorem reads_column (name : Text) (definition : Value) :
    Reads IsModelError (ColumnInOrder definition) (column name definition) := by
  cases definition with
  | mapping pairs =>
    refine ((reads_written _).bind fun dataType _ => reads_make _ _ _ _).congr ?_
    rw [and_true, ColumnInOrder]
    cases Mapping.getText? "type" pairs with
    | none => simp [Value.hasLong]
    | some v => simp
  | null => exact reads_make _ _ _ _
  | text t =>
    exact ((reads_addAll name {} _).bind fun s _ => reads_make _ _ _ _).congr
      (iff_of_eq (and_true _))
  | _ => exact .of_declared (isModelError_draft _)

/-! ### Models -/

/-- The kinds of a relationships section can be written. -/
def RelationshipsInOrder : Value → Prop
  | .mapping pairs => ∀ p ∈ pairs, p.1.hasLong = false
  | _ => True

theorem reads_relationshipPairs (entity : Text) (pairs : Mapping) (declared : Declarations) :
    Reads IsModelError (∀ p ∈ pairs, p.1.hasLong = false)
      (relationshipPairs entity pairs declared) := by
  induction pairs generalizing declared with
  | nil => exact fun p hp => by cases hp
  | cons p rest ih =>
    obtain ⟨key, value⟩ := p
    refine ((reads_written key).bind (q := ∀ p ∈ rest, p.1.hasLong = false)
      fun shown _ => ?_).congr (by simp)
    split
    · exact .of_declared (isModelError_draft _)
    · split
      · exact ih _
      · split
        · exact ih _
        · exact .of_declared (isModelError_draft _)

theorem reads_relationships (entity : Text) (definition : Value) :
    Reads IsModelError (RelationshipsInOrder definition) (relationships entity definition) := by
  cases definition with
  | null => exact True.intro
  | mapping pairs => exact reads_relationshipPairs entity pairs []
  | _ => exact .of_declared (isModelError_draft _)

/-- The words among the keys of a model that name no columns. -/
def optionWords : List Text := "relationships" :: "meta" :: (timestampWords ++ softDeleteWords)

/-- What is asked of the value of an entry depends on its key. -/
def EntryValueInOrder (key : Text) (value : Value) : Prop :=
  (lower key = ("relationships" : Text) → RelationshipsInOrder value) ∧
    (lower key ∉ optionWords → ColumnInOrder value)

theorem reads_addEntry (m : ModelParts) (key : Text) (value : Value) :
    Reads IsModelError (EntryValueInOrder key value) (addEntry m key value) := by
  have hoption {m' : ModelParts} (hword : lower key ∈ optionWords)
      (hno : lower key ≠ ("relationships" : Text)) :
      Reads IsModelError (EntryValueInOrder key value) (.ok m') :=
    ⟨fun heq => absurd heq hno, fun hcolumn => absurd hword hcolumn⟩
  unfold addEntry
  simp only
  split_ifs with hrelationships htimestamps hdeletes hmeta
  · refine ((reads_relationships m.entity.name value).map _).congr ?_
    simp [EntryValueInOrder, hrelationships, optionWords]
  · refine hoption ?_ hrelationships
    have hmem := List.contains_iff_mem.mp htimestamps
    simp [optionWords, hmem]
  · refine hoption ?_ hrelationships
    have hmem := List.contains_iff_mem.mp hdeletes
    simp [optionWords, hmem]
  · exact hoption (by simp [optionWords, hmeta]) hrelationships
  · refine ((reads_column key value).map _).congr ?_
    have hcolumn : lower key ∉ optionWords := by
      rw [List.contains_iff_mem] at htimestamps hdeletes
      simp only [optionWords, List.mem_cons, List.mem_append, not_or]
      exact ⟨hrelationships, hmeta, htimestamps, hdeletes⟩
    rw [EntryValueInOrder, and_iff_right fun heq => absurd heq hrelationships,
      forall_prop_of_true hcolumn]

/-- The key of an entry can be written, and its value is in order. -/
def EntryInOrder (p : Value × Value) : Prop :=
  p.1.hasLong = false ∧ EntryValueInOrder p.1.display p.2

theorem reads_addEntries (m : ModelParts) (pairs : Mapping) :
    Reads IsModelError (∀ p ∈ pairs, EntryInOrder p) (addEntries m pairs) := by
  induction pairs generalizing m with
  | nil => exact fun p hp => by cases hp
  | cons p rest ih =>
    obtain ⟨key, value⟩ := p
    have hentry : ∀ shown, key.written.mapError Failure.misuse = .ok shown →
        Reads IsModelError (EntryValueInOrder key.display value ∧ ∀ p ∈ rest, EntryInOrder p)
          ((addEntry m shown value).bind fun m => addEntries m rest) := by
      intro shown hshown
      rw [← eq_display_of_written hshown]
      exact (reads_addEntry m shown value).bind fun m' _ => ih m'
    refine ((reads_written key).bind hentry).congr ?_
    rw [List.forall_mem_cons, EntryInOrder, and_assoc]

/-- The name of a model can be written, and its entries are in order. -/
def ModelInOrder (name definition : Value) : Prop :=
  name.hasLong = false ∧ ∀ pairs, definition = .mapping pairs → ∀ p ∈ pairs, EntryInOrder p

theorem reads_model (name definition : Value) :
    Reads IsDraftError (ModelInOrder name definition) (model name definition) := by
  unfold model
  refine Reads.bind (reads_written name) fun shown _ => ?_
  let start : ModelParts := { entity := { name := afterLast '/' shown } }
  have hread (pairs : Mapping) : Reads IsDraftError (∀ p ∈ pairs, EntryInOrder p)
      (((addEntries start pairs).bind fun m =>
        (m.entity.make m.declared).mapError .ofRefusal).mapError (modelFailure shown)) := by
    have hmake (m : ModelParts) :
        Reads IsModelError True ((m.entity.make m.declared).mapError .ofRefusal) :=
      Reads.of_clean (m.entity.make_clean m.declared) isModelError_issues
    have hall := (reads_addEntries start pairs).bind fun m _ => hmake m
    refine (hall.mapError (fun f hf => ?_) fun m => rfl).congr (iff_of_eq (and_true _))
    rcases hf with ⟨err, rfl⟩ | ⟨found, rfl⟩
    · exact ⟨err, rfl⟩
    · exact ⟨_, rfl⟩
  cases definition with
  | null => exact (hread []).congr (by simp)
  | mapping pairs => exact (hread pairs).congr (by simp)
  | _ => exact .of_declared ⟨_, rfl⟩

/-! ### Controllers -/

/-- The key of an action can be written, and so can the value under the key for resources. -/
def ActionInOrder (p : Value × Value) : Prop :=
  p.1.hasLong = false ∧ (p.1.display = ("resource" : Text) → p.2.hasLong = false)

theorem entryMethods_ok_iff (defaults : List Text) (key value : Value) :
    (∃ ms, entryMethods defaults key value = .ok ms) ↔ ActionInOrder (key, value) := by
  unfold entryMethods ActionInOrder
  rw [Except.exists_bind_eq_ok]
  simp only [written_eq_ok_iff, and_assoc, exists_and_left, exists_eq_left']
  refine and_congr_right fun _ => ?_
  split_ifs with haction
  · rw [Except.exists_map_eq_ok, exists_written_eq_ok, forall_prop_of_true haction]
  · exact iff_of_true ⟨_, rfl⟩ fun heq => absurd heq haction

theorem declaredMethods_ok_iff (defaults : List Text) (pairs : Mapping) :
    (∃ ms, declaredMethods defaults pairs = .ok ms) ↔ ∀ p ∈ pairs, ActionInOrder p := by
  induction pairs with
  | nil => simp [declaredMethods]
  | cons p rest ih =>
    obtain ⟨key, value⟩ := p
    rw [declaredMethods, Except.exists_bind_eq_ok, List.forall_mem_cons,
      ← entryMethods_ok_iff defaults, ← ih]
    simp only [Except.exists_map_eq_ok]
    exact exists_and_right

/-- The name of a controller can be written, and its actions are in order. -/
def ControllerInOrder (name definition : Value) : Prop :=
  name.hasLong = false ∧ ∀ pairs, definition = .mapping pairs → ∀ p ∈ pairs, ActionInOrder p

theorem reads_controller (name definition : Value) (defaults : List Text) :
    Reads IsDraftError (ControllerInOrder name definition)
      (controller name definition defaults) := by
  unfold controller
  refine Reads.bind (reads_written name) fun shown _ => ?_
  dsimp only
  split
  · exact .of_declared ⟨_, rfl⟩
  · rename_i last _
    have hread (pairs : Mapping) : Reads IsDraftError (∀ p ∈ pairs, ActionInOrder p)
        (((methods defaults pairs).mapError .misuse).bind fun methods =>
          let c : Controller :=
            { name := last, space := join "\\" (nameParts shown).dropLast, methods }
          (c.make.mapError .ofRefusal).mapError (controllerFailure shown)) := by
      refine ((Reads.of_misuse (methods defaults pairs)).bind (q := True) fun ms _ => ?_).congr ?_
      · have hmake : Reads IsModelError True _ := Reads.of_clean
          (Controller.make_clean ⟨last, join "\\" (nameParts shown).dropLast, ms⟩)
          isModelError_issues
        refine hmake.mapError (fun f hf => ?_) fun m => rfl
        rcases hf with ⟨err, rfl⟩ | ⟨found, rfl⟩
        · exact ⟨err, rfl⟩
        · exact ⟨_, rfl⟩
      · rw [and_true, ← declaredMethods_ok_iff defaults pairs]
        exact Except.exists_map_eq_ok
    cases definition with
    | null => exact (hread []).congr (by simp)
    | mapping pairs => exact (hread pairs).congr (by simp)
    | _ => exact .of_declared ⟨_, rfl⟩

/-! ### Settings -/

/-- A value of two parts of which the first can be a key. -/
def IsPair (item : Value) : Prop :=
  ∃ key value, Relationships.members item = .ok [key, value] ∧ key.unhashed? = none

theorem pairOf_ok_iff (position : Nat) (item : Value) :
    (∃ pair, pairOf position item = .ok pair) ↔ IsPair item := by
  unfold pairOf IsPair
  cases Relationships.members item with
  | error m => simp
  | ok parts =>
    rcases parts with _ | ⟨key, _ | ⟨value, _ | ⟨third, rest⟩⟩⟩
    · simp
    · simp
    · cases hkey : key.unhashed? <;> simp [hkey]
    · simp

theorem pairsOf_ok_iff (position : Nat) (items : List Value) :
    (∃ pairs, pairsOf position items = .ok pairs) ↔ ∀ item ∈ items, IsPair item := by
  induction items generalizing position with
  | nil => simp [pairsOf]
  | cons item rest ih =>
    rw [pairsOf, List.forall_mem_cons, ← pairOf_ok_iff position, ← ih (position + 1)]
    simp only [bind, Except.exists_bind_eq_ok, Except.ok.injEq, exists_eq', and_true]
    exact exists_and_right

/-- A section of settings is empty, or a mapping, or a collection of pairs. -/
def SettingsInOrder (v : Value) : Prop :=
  v.isTruthy = true → (∃ pairs, v = .mapping pairs) ∨
    ∃ items, Relationships.members v = .ok items ∧ ∀ item ∈ items, IsPair item

theorem settingsOf_ok_iff (v : Value) :
    (∃ pairs, settingsOf v = .ok pairs) ↔ SettingsInOrder v := by
  unfold settingsOf SettingsInOrder
  split_ifs with htruthy
  · rw [forall_prop_of_true htruthy]
    cases v with
    | mapping pairs => simp
    | _ => simp [Except.exists_bind_eq_ok, pairsOf_ok_iff]
  · simp [htruthy]

theorem reads_configuration (raw : Mapping) (overrides : Value) :
    Reads IsDraftError
      (SettingsInOrder ((section? raw "config").getD .null) ∧ SettingsInOrder overrides)
      (configuration raw overrides) := by
  unfold configuration
  rw [← settingsOf_ok_iff, ← settingsOf_ok_iff]
  refine (Reads.of_misuse _).bind fun own _ => ?_
  refine ((Reads.of_misuse _).bind (q := True) fun given _ => ?_).congr (iff_of_eq (and_true _))
  have hclean := Configuration.check_clean
    (.mapping (Mapping.insertAll given (Mapping.ofPairs own)))
  split
  · trivial
  · exact .of_declared ⟨_, rfl⟩
  · rename_i m hm
    exact absurd hm (hclean m)

/-! ### Whole drafts -/

theorem reads_models (pairs : Mapping) :
    Reads IsDraftError (∀ p ∈ pairs, ModelInOrder p.1 p.2) (models pairs) := by
  induction pairs with
  | nil => exact fun p hp => by cases hp
  | cons p rest ih =>
    obtain ⟨name, definition⟩ := p
    refine ((reads_model name definition).bind fun e _ =>
      ih.bind (q := True) fun _ _ => ?_).congr ?_
    · trivial
    · simp

theorem reads_controllers (defaults : List Text) (pairs : Mapping) :
    Reads IsDraftError (∀ p ∈ pairs, ControllerInOrder p.1 p.2) (controllers defaults pairs) := by
  induction pairs with
  | nil => exact fun p hp => by cases hp
  | cons p rest ih =>
    obtain ⟨name, definition⟩ := p
    refine ((reads_controller name definition defaults).bind fun c _ =>
      ih.bind (q := True) fun _ _ => ?_).congr ?_
    · trivial
    · simp

theorem sectionPairs_ok {raw : Mapping} {name : Text} {wrongForm : DraftError} {pairs : Mapping}
    (h : sectionPairs raw name wrongForm = .ok pairs) {P : Value × Value → Prop} :
    (∀ p ∈ pairs, P p) ↔ ∀ ps, section? raw name = some (.mapping ps) → ∀ p ∈ ps, P p := by
  unfold sectionPairs at h
  split at h
  · rename_i hnone
    cases h
    simp [hnone]
  · rename_i found hsome
    cases h
    simp [hsome]
  · cases h

theorem reads_sectionPairs (raw : Mapping) (name : Text) (wrongForm : DraftError) :
    Reads IsDraftError True (sectionPairs raw name wrongForm) := by
  unfold sectionPairs
  split
  · trivial
  · trivial
  · exact .of_declared ⟨_, rfl⟩

/-- Everything in a draft that is read before it is checked is in order. -/
structure InOrder (raw : Mapping) (overrides : Value) : Prop where
  configuration : SettingsInOrder ((section? raw "config").getD .null)
  overrides : SettingsInOrder overrides
  models : ∀ pairs, section? raw "models" = some (.mapping pairs) →
    ∀ p ∈ pairs, ModelInOrder p.1 p.2
  controllers : ∀ pairs, section? raw "controllers" = some (.mapping pairs) →
    ∀ p ∈ pairs, ControllerInOrder p.1 p.2

theorem reads_parse (raw : Mapping) (overrides : Value) (sourceFile : Option Text) :
    Reads IsDraftError (InOrder raw overrides) (parse raw overrides sourceFile) := by
  have hparts : InOrder raw overrides ↔
      (SettingsInOrder ((section? raw "config").getD .null) ∧ SettingsInOrder overrides) ∧
      (∀ pairs, section? raw "models" = some (.mapping pairs) →
        ∀ p ∈ pairs, ModelInOrder p.1 p.2) ∧
      ∀ pairs, section? raw "controllers" = some (.mapping pairs) →
        ∀ p ∈ pairs, ControllerInOrder p.1 p.2 :=
    ⟨fun h => ⟨⟨h.configuration, h.overrides⟩, h.models, h.controllers⟩,
      fun h => ⟨h.1.1, h.1.2, h.2.1, h.2.2⟩⟩
  refine ((reads_configuration raw overrides).bind fun c _ => ?_).congr hparts.symm
  refine ((reads_sectionPairs raw "models" .modelsForm).bind fun ms hms => ?_).congr
    (iff_of_eq (true_and _))
  refine ((reads_sectionPairs raw "controllers" .controllersForm).bind fun cs hcs => ?_).congr
    (iff_of_eq (true_and _))
  rw [← sectionPairs_ok hms (P := fun p => ModelInOrder p.1 p.2),
    ← sectionPairs_ok hcs (P := fun p => ControllerInOrder p.1 p.2)]
  refine (reads_models ms).bind fun entities _ => ?_
  refine ((reads_controllers _ cs).bind (q := True) fun controllers _ => ?_).congr
    (iff_of_eq (and_true _))
  split
  · trivial
  · exact .of_declared ⟨_, rfl⟩
  · rename_i m hm
    exact absurd hm (Schema.distinctEntities_clean _ m)

/-- Settings that are not in order are misused before anything else is read. -/
theorem parse_of_settings {raw : Mapping} {overrides : Value}
    (h : ¬(SettingsInOrder ((section? raw "config").getD .null) ∧ SettingsInOrder overrides))
    (sourceFile : Option Text) : ∃ m, parse raw overrides sourceFile = .error (.misuse m) := by
  rw [← settingsOf_ok_iff, ← settingsOf_ok_iff] at h
  unfold parse configuration
  cases hown : settingsOf ((section? raw "config").getD .null) with
  | error m => exact ⟨m, rfl⟩
  | ok own =>
    cases hgiven : settingsOf overrides with
    | error m => exact ⟨m, rfl⟩
    | ok given => exact absurd ⟨⟨own, hown⟩, given, hgiven⟩ h

/-- A draft that is in order is read or refused with an error of the draft. One that is not in
order is never read, and it may end in a misuse; it always does when that is for its settings or
for those given from outside. -/
theorem parse_in_order (raw : Mapping) (overrides : Value) (sourceFile : Option Text) :
    (InOrder raw overrides → (∃ result, parse raw overrides sourceFile = .ok result) ∨
      ∃ e, parse raw overrides sourceFile = .error (.draft e)) ∧
    (¬InOrder raw overrides → (∃ e, parse raw overrides sourceFile = .error (.draft e)) ∨
      ∃ m, parse raw overrides sourceFile = .error (.misuse m)) ∧
    (¬(SettingsInOrder ((section? raw "config").getD .null) ∧ SettingsInOrder overrides) →
      ∃ m, parse raw overrides sourceFile = .error (.misuse m)) := by
  have hreads := reads_parse raw overrides sourceFile
  refine ⟨fun h => ?_, fun h => ?_, fun h => parse_of_settings h sourceFile⟩
  · cases hparse : parse raw overrides sourceFile with
    | ok result => exact Or.inl ⟨result, rfl⟩
    | error f =>
      rw [hparse] at hreads
      obtain ⟨e, rfl⟩ := hreads.resolve_right fun hno => hno.1 h
      exact Or.inr ⟨e, rfl⟩
  · cases hparse : parse raw overrides sourceFile with
    | ok result => rw [hparse] at hreads; exact absurd hreads h
    | error f =>
      rw [hparse] at hreads
      rcases hreads with ⟨e, rfl⟩ | ⟨-, m, rfl⟩
      · exact Or.inl ⟨e, rfl⟩
      · exact Or.inr ⟨m, rfl⟩

/-- The columns of a model, one of them with a number for its argument. -/
def postColumns : Mapping := [(.text "title", .text "string:400 unique"), (.text "body", .null)]

def postModels : Mapping := [(.text "Post", .mapping postColumns)]

def postDraft : Mapping := [(.text "models", .mapping postModels)]

theorem postDraft_in_order : InOrder postDraft (.mapping []) := by
  refine ⟨?settings, ?overrides, ?models, ?controllers⟩
  case settings => exact fun hno => absurd hno (by decide)
  case overrides => exact fun hno => absurd hno (by decide)
  case controllers =>
    intro pairs hpairs
    cases hpairs
  case models =>
    intro pairs hpairs
    cases hpairs
    refine List.forall_mem_singleton.mpr ⟨rfl, fun columns hcolumns => ?_⟩
    cases hcolumns
    have hwords : ∀ word ∈ tokens "string:400 unique", WordInOrder word := by decide
    refine List.forall_mem_cons.mpr ⟨⟨rfl, fun hno => ?_, fun _ => hwords⟩,
      List.forall_mem_singleton.mpr ⟨rfl, fun hno => ?_, fun _ => trivial⟩⟩ <;>
      exact absurd hno (by decide)

theorem postDraft_read_or_refused :
    InOrder postDraft (.mapping []) ∧
      ((∃ result, parse postDraft (.mapping []) none = .ok result) ∨
        ∃ e, parse postDraft (.mapping []) none = .error (.draft e)) :=
  ⟨postDraft_in_order, (parse_in_order postDraft (.mapping []) none).1 postDraft_in_order⟩

/-- Settings that are a number. -/
def numberForSettings : Mapping := [(.text "config", .int 5)]

theorem numberForSettings_escapes :
    parse numberForSettings (.mapping []) none = .error (.misuse (.notIterable "int")) := rfl

end Draft

end ApiScaffold
