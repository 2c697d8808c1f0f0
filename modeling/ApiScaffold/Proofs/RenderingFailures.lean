import ApiScaffold.Check.Rules
import ApiScaffold.Proofs.Rendering

/-!
# What can keep checks and jobs from an outcome

The checks on a schema write the values of enum columns out, which fails for a longer integer than
can be written. Among files, only a stub that cannot be read ends a rendering early. Beside that
there are the clock and the draft: an example of a date has no text when the calendar does not cover
the moment, and neither has a value of an enum column that cannot be written. A stub that is nowhere
to be found is no failure.
-/
namespace ApiScaffold

open Text

/-! ### Values that cannot be written -/

namespace Value

variable {v : Value} {t : Text} {m : Misuse}

theorem written_eq_ok_iff : v.written = .ok t ↔ v.hasLong = false ∧ v.display = t := by
  unfold written
  cases v.hasLong <;> simp

theorem written_eq_error_iff : v.written = .error m ↔ m = .tooLongToWrite ∧ v.hasLong = true := by
  unfold written
  cases v.hasLong <;> simp [eq_comm]

/-- What cannot be written is not one of the values that count as absent. -/
theorem isTruthy_of_hasLong (h : v.hasLong = true) : v.isTruthy = true := by
  cases v with
  | int i =>
    refine bne_iff_ne.mpr fun hzero => ?_
    subst hzero
    exact absurd h (by decide)
  | list items | tuple items | set items | mapping items =>
    cases items with
    | nil => cases h
    | cons first rest => rfl
  | _ => cases h

end Value

namespace Column

/-- An enum column that declares a class which cannot be written. -/
def HasLongClass (c : Column) : Prop :=
  c.isEnum = true ∧ ∃ v, c.attributes.getText? "enum_class" = some v ∧ v.hasLong = true

/-- An enum column with a declared value that cannot be written. -/
def HasLongValues (c : Column) : Prop :=
  c.isEnum = true ∧ ∃ items, c.values?.bind Value.items? = some items ∧
    ∃ v ∈ items, v.hasLong = true

/-- An enum column whose first value cannot be written. -/
def HasLongValue (c : Column) : Prop :=
  c.isEnum = true ∧ ∃ v, Example.firstValue? c.values? = some v ∧ v.hasLong = true

end Column

namespace Check

variable {schema : Schema} {e : Entity} {c : Column} {m : Misuse}

theorem enumColumn_eq_error (h : enumColumn e c = .error m) :
    m = .tooLongToWrite ∧ c.HasLongValues := by
  unfold enumColumn at h
  split_ifs at h with henum
  have hvalues := Except.map_eq_error_iff.mp h
  unfold Column.enumValues at hvalues
  split at hvalues
  · rename_i items hitems
    obtain ⟨v, hv, hno⟩ := Except.exists_of_mapM_eq_error hvalues
    obtain ⟨rfl, hlong⟩ := Value.written_eq_error_iff.mp hno
    exact ⟨rfl, henum, items, hitems, v, hv, hlong⟩
  · cases hvalues

/-- The checks on a schema come to an end unless a value of an enum column cannot be written. -/
theorem schema_eq_error (h : Check.schema schema = .error m) :
    m = .tooLongToWrite ∧ ∃ e ∈ schema.entities, ∃ c ∈ e.columns, c.HasLongValues := by
  have henums := Except.map_eq_error_iff.mp (Except.map_eq_error_iff.mp h)
  obtain ⟨e, he, hcolumns⟩ := Except.exists_of_mapM_eq_error henums
  obtain ⟨c, hc, hcolumn⟩ := Except.exists_of_mapM_eq_error (Except.map_eq_error_iff.mp hcolumns)
  obtain ⟨rfl, hlong⟩ := enumColumn_eq_error hcolumn
  exact ⟨rfl, e, he, c, hc, hlong⟩

end Check

namespace ClassNames

variable {s : Settings} {c : Column} {entity : Text} {m : Misuse}

theorem enumClass_eq_error_iff : enumClass s c entity = .error m ↔
    m = .tooLongToWrite ∧ ∃ v, c.attributes.getText? "enum_class" = some v ∧ v.hasLong = true := by
  unfold enumClass
  cases hdeclared : c.attributes.getText? "enum_class" with
  | none => simp
  | some v =>
    rw [Option.filter_some]
    by_cases htruthy : v.isTruthy = true
    · simp [htruthy, Except.map_eq_error_iff, Value.written_eq_error_iff]
    · have hshort : ¬v.hasLong = true := fun hlong => htruthy (Value.isTruthy_of_hasLong hlong)
      simp [htruthy, hshort]

theorem enumClass?_eq_error_iff :
    enumClass? s c entity = .error m ↔ m = .tooLongToWrite ∧ c.HasLongClass := by
  unfold enumClass? Column.HasLongClass
  split_ifs with henum
  · simp [Except.map_eq_error_iff, enumClass_eq_error_iff, henum]
  · simp [henum]

theorem enumClass?_eq_ok_iff {own : Option Text} : enumClass? s c entity = .ok own ↔
    (c.isEnum = true ∧ ∃ cls, enumClass s c entity = .ok cls ∧ own = some cls) ∨
      ¬c.isEnum = true ∧ own = none := by
  unfold enumClass?
  split_ifs with henum
  · simp [Except.map_eq_ok_iff, henum, eq_comm (b := own)]
  · simp [henum, eq_comm]

/-- The class of an enum is there unless it cannot be written. -/
theorem exists_enumClass?_iff : (∃ cls, enumClass? s c entity = .ok cls) ↔ ¬c.HasLongClass := by
  constructor
  · rintro ⟨cls, hcls⟩ hlong
    rw [enumClass?_eq_error_iff.mpr ⟨rfl, hlong⟩] at hcls
    cases hcls
  · intro hshort
    cases hcls : enumClass? s c entity with
    | ok cls => exact ⟨cls, rfl⟩
    | error m => exact absurd (enumClass?_eq_error_iff.mp hcls).2 hshort

end ClassNames

namespace Example

variable {column dataType : Text} {values : Option Value} {now : Moment} {m : Misuse}

theorem enumExample_eq_error_iff : enumExample values = .error m ↔
    m = .tooLongToWrite ∧ ∃ v, firstValue? values = some v ∧ v.hasLong = true := by
  unfold enumExample
  cases firstValue? values with
  | none => simp
  | some first => simp [Except.map_eq_error_iff, Value.written_eq_error_iff]

theorem dateExample_eq_error_iff :
    dateExample now = .error m ↔ m = .calendarRange ∧ now.timestamp? = none := by
  unfold dateExample
  cases now.timestamp? <;> simp [eq_comm]

/-- An example fails by its type alone: a date by the clock, an enum by its first value. -/
theorem exampleValue_eq_error_iff : exampleValue column dataType values now = .error m ↔
    byName? column = none ∧
      ((isDateType dataType = true ∧ m = .calendarRange ∧ now.timestamp? = none) ∨
        (isEnumType dataType = true ∧ m = .tooLongToWrite ∧
          ∃ v, firstValue? values = some v ∧ v.hasLong = true)) := by
  unfold exampleValue
  cases byName? column with
  | some literal => simp
  | none =>
    have hfamily : byType column dataType values now = .error m ↔
        (isDateType dataType = true ∧ m = .calendarRange ∧ now.timestamp? = none) ∨
          (isEnumType dataType = true ∧ m = .tooLongToWrite ∧
            ∃ v, firstValue? values = some v ∧ v.hasLong = true) := by
      unfold byType isDateType isEnumType
      rw [← enumExample_eq_error_iff, ← dateExample_eq_error_iff]
      split <;> simp [*]
    simp only [Except.map_eq_error_iff, hfamily, true_and]

end Example

namespace DataFile

variable {s : Settings} {e : Entity} {ps : List Property} {m : Misuse}

theorem properties_eq_ok_iff : properties s e = .ok ps ↔
    ∃ columns, columnProperties s e = .ok columns ∧ ps = columns ++ relatedProperties s e := by
  unfold properties
  simp only [Except.map_eq_ok_iff, eq_comm (b := ps)]

/-- The properties of a data object are there unless the class of an enum cannot be written. -/
theorem properties_eq_error (h : properties s e = .error m) :
    m = .tooLongToWrite ∧ ∃ c ∈ e.columns, c.isBodyColumn = true ∧ c.HasLongClass := by
  unfold properties columnProperties at h
  obtain ⟨c, hc, hno⟩ := Except.exists_of_mapM_eq_error (Except.map_eq_error_iff.mp h)
  obtain ⟨hmem, hbody⟩ := List.mem_filter.mp hc
  obtain ⟨hm, hlong⟩ := ClassNames.enumClass?_eq_error_iff.mp (Except.map_eq_error_iff.mp hno)
  exact ⟨hm, c, hmem, hbody, hlong⟩

theorem exists_properties_iff : (∃ ps, properties s e = .ok ps) ↔
    ∀ c ∈ e.columns, c.isBodyColumn = true → ¬c.HasLongClass := by
  unfold properties columnProperties columnProperty
  simp only [Except.exists_map_eq_ok, Except.exists_mapM_eq_ok_iff, List.mem_filter, and_imp,
    ClassNames.exists_enumClass?_iff]

end DataFile

/-! ### Jobs -/

namespace Job

variable {look : Lookup} {s : Settings} {now : Moment}

/-- The columns that the file of a job may show values of. -/
def columns : Job → List Column
  | controller _ e => e.elim [] Entity.columns
  | data e => e.columns

/-- What can keep jobs from coming to an outcome: a stub of theirs, the clock, or a value of an
enum column. -/
inductive Hindered (look : Lookup) (now : Moment) (names : List Text) (columns : List Column) :
    Failure → Prop
  | stub {name : Text} {err : Stub.ReadError} (hname : name ∈ names)
    (hlook : look name = .error err) : Hindered look now names columns (.ofRead err)
  | clock (hnow : now.timestamp? = none) : Hindered look now names columns (.misuse .calendarRange)
  | value {c : Column} (hc : c ∈ columns) (hlong : c.HasLongClass ∨ c.HasLongValue) :
    Hindered look now names columns (.misuse .tooLongToWrite)

theorem Hindered.mono {names names' : List Text} {columns columns' : List Column} {f : Failure}
    (h : Hindered look now names columns f) (hnames : names ⊆ names')
    (hcolumns : columns ⊆ columns') : Hindered look now names' columns' f := by
  cases h with
  | stub hname hlook => exact .stub (hnames hname) hlook
  | clock hnow => exact .clock hnow
  | value hc hlong => exact .value (hcolumns hc) hlong

theorem hindered_of_bodyParameter {names : List Text} {e : Entity} {c : Column} {m : Misuse}
    (hc : c ∈ e.columns) (h : ControllerFile.bodyParameter s now e c = .error m) :
    Hindered look now names e.columns (.misuse m) := by
  rcases Except.bind_eq_error_iff.mp h with hcls | ⟨cls, -, hexample⟩
  · obtain ⟨rfl, hlong⟩ := ClassNames.enumClass?_eq_error_iff.mp hcls
    exact .value hc (Or.inl hlong)
  · rcases Example.exampleValue_eq_error_iff.mp (Except.map_eq_error_iff.mp hexample) with
      ⟨-, ⟨-, rfl, hnow⟩ | ⟨henum, rfl, hlong⟩⟩
    · exact .clock hnow
    · exact .value hc (Or.inr ⟨henum, hlong⟩)

theorem hindered_of_methodText {names : List Text} {c : Controller} {e : Option Entity}
    {verb stub : Text} {m : Misuse}
    (h : ControllerFile.methodText s now c e verb stub = .error m) :
    Hindered look now names (e.elim [] Entity.columns) (.misuse m) := by
  have h := Except.map_eq_error_iff.mp h
  cases e with
  | none => cases h
  | some e =>
    simp only [ControllerFile.attributeLines] at h
    split_ifs at h
    obtain ⟨c, hc, hno⟩ := Except.exists_of_mapM_eq_error (Except.map_eq_error_iff.mp h)
    exact hindered_of_bodyParameter (List.mem_filter.mp hc).1 hno

theorem hindered_of_methodTexts {c : Controller} {e : Option Entity} {verbs : List Text}
    {f : Failure} (h : methodTexts look s now c e verbs = .error f) :
    Hindered look now (verbs.map ControllerFile.methodStub) (e.elim [] Entity.columns) f := by
  induction verbs with
  | nil => cases h
  | cons verb rest ih =>
    have hmono (hrest : methodTexts look s now c e rest = .error f) :
        Hindered look now ((verb :: rest).map ControllerFile.methodStub)
          (e.elim [] Entity.columns) f :=
      (ih hrest).mono (List.subset_cons_self _ _) (List.Subset.refl _)
    unfold methodTexts at h
    split at h
    · rename_i err hl
      cases h
      exact .stub List.mem_cons_self hl
    · exact hmono h
    · split at h
      · rename_i ht
        cases h
        exact hindered_of_methodText ht
      · exact hmono (Except.map_eq_error_iff.mp h)

theorem hindered_of_outcome {job : Job} {f : Failure}
    (h : job.outcome look s now = .error f) :
    Hindered look now (job.stubNames s) job.columns f := by
  unfold outcome at h
  split at h
  · rename_i err hl
    cases h
    exact .stub (job.classStub_mem_stubNames s) hl
  · cases h
  · have hfile := Except.map_eq_error_iff.mp h
    cases job with
    | data e =>
      obtain ⟨m, hm, rfl⟩ := Except.mapError_eq_error_iff.mp hfile
      obtain ⟨rfl, c, hc, -, hlong⟩ :=
        DataFile.properties_eq_error (Except.map_eq_error_iff.mp hm)
      exact .value hc (Or.inl hlong)
    | controller c e =>
      have htexts := hindered_of_methodTexts (Except.map_eq_error_iff.mp hfile)
      exact htexts.mono (List.subset_cons_self _ _) (List.Subset.refl _)

theorem hindered_of_outcomes {jobs : List Job} {f : Failure}
    (h : outcomes look s now jobs = .error f) :
    Hindered look now (jobs.flatMap (stubNames s)) (jobs.flatMap columns) f := by
  induction jobs with
  | nil => cases h
  | cons job rest ih =>
    unfold outcomes at h
    split at h
    · rename_i f' ho
      cases h
      exact (hindered_of_outcome ho).mono (by simp) (by simp)
    · exact (ih (Except.map_eq_error_iff.mp h)).mono (by simp) (by simp)

end Job

end ApiScaffold
