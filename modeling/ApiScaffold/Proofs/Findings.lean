import ApiScaffold.Check.Rules
import ApiScaffold.Proofs.Results
import Mathlib.Data.List.Basic

/-!
# What a full check has looked at

A full check lists the findings of its parts one after the other, so a finding of a part is a
finding of the whole. What a part would have reported is then known to be absent from a schema
without such a finding: two controllers of one class and namespace, or a related name that no
model has. The findings on stub directories are the only ones that depend on files.
-/
namespace ApiScaffold

open Text

theorem Report.isValid_iff (r : Report) :
    r.isValid = true ↔ ∀ f ∈ r.findings, f.level ≠ .error := by
  simp [Report.isValid, Report.errors, Report.ofLevel, List.isEmpty_iff]

namespace Check

variable {tree : Tree} {cwd : Path} {s : Schema} {config : Settings} {found : Report}

/-- The parts of a full check that came to an end. -/
theorem full_findings (h : full tree cwd s config = .ok found) :
    ∃ onSchema onSettings, schema s = .ok onSchema ∧
      settings tree cwd config = .ok onSettings ∧
      found.findings = onSchema.findings ++ (controllers s config).findings ++
        onSettings.findings ++ config.enumClasses.flatMap fun p => enumKeyEntity s p.1 := by
  obtain ⟨onSchema, hschema, h⟩ := Except.bind_eq_ok_iff.mp h
  obtain ⟨onSettings, hsettings, h⟩ := Except.bind_eq_ok_iff.mp h
  cases h
  exact ⟨onSchema, onSettings, Except.mapError_eq_ok_iff.mp hschema,
    Except.mapError_eq_ok_iff.mp hsettings, rfl⟩

/-- A full check fails with the checks on the schema, whatever the files, or with the system. -/
theorem full_eq_error {f : Failure} (h : full tree cwd s config = .error f) :
    (∃ m, f = .misuse m ∧ schema s = .error m) ∨ ∃ e, f = .system e := by
  rcases Except.bind_eq_error_iff.mp h with hschema | ⟨onSchema, -, h⟩
  · obtain ⟨m, hm, rfl⟩ := Except.mapError_eq_error_iff.mp hschema
    exact Or.inl ⟨m, rfl, hm⟩
  · rcases Except.bind_eq_error_iff.mp h with hsettings | ⟨onSettings, -, h⟩
    · obtain ⟨e, -, rfl⟩ := Except.mapError_eq_error_iff.mp hsettings
      exact Or.inr ⟨e, rfl⟩
    · cases h

/-- The parts of the checks on a schema, when the values of its enums can be written. -/
theorem schema_findings {onSchema : Report} (h : schema s = .ok onSchema) :
    ∃ onEnums, enumColumns s = .ok onEnums ∧ onSchema.findings = (entityNames s).findings ++
      (columnNames s).findings ++ onEnums.findings ++ (relationships s).findings := by
  obtain ⟨onEnums, henums, rfl⟩ := Except.map_eq_ok_iff.mp h
  exact ⟨onEnums, henums, rfl⟩

/-- A finding of a check that cannot fail is a finding of the full check. -/
theorem mem_full_of_part (h : full tree cwd s config = .ok found) (part : Report)
    (hpart : part ∈ [entityNames s, columnNames s, relationships s, controllers s config])
    {f : Finding} (hf : f ∈ part.findings) : f ∈ found.findings := by
  obtain ⟨onSchema, onSettings, hschema, -, hfound⟩ := full_findings h
  obtain ⟨onEnums, -, hparts⟩ := schema_findings hschema
  rw [hfound, hparts]
  simp only [List.mem_cons, List.not_mem_nil, or_false] at hpart
  rcases hpart with rfl | rfl | rfl | rfl <;> simp [hf]

/-- The columns of a valid schema have identifiers for names, read as lines. -/
theorem column_asLine (h : full tree cwd s config = .ok found) (hvalid : found.isValid = true)
    {e : Entity} (he : e ∈ s.entities) {c : Column} (hc : c ∈ e.columns) :
    asLine isIdentifier c.name = true := by
  by_contra hline
  have hf : ∀ f ∈ columnName e c, f ∈ found.findings := fun f hf =>
    mem_full_of_part h (columnNames s) (by simp)
      (List.mem_flatMap.mpr ⟨e, he, List.mem_flatMap.mpr ⟨c, hc, hf⟩⟩)
  unfold columnName at hf
  rw [if_pos (by simpa using hline)] at hf
  exact (Report.isValid_iff found).mp hvalid _ (hf _ (List.mem_singleton_self _)) rfl

theorem mem_findingIf_iff {condition : Bool} {level : Severity} {code message : Text}
    {context : Mapping} {f : Finding} :
    f ∈ findingIf condition level code message context ↔
      condition = true ∧ f = ⟨level, code, message, context⟩ := by
  unfold findingIf
  split_ifs with h <;> simp [h]

/-- A stub directory that is missing is worth a warning, never an error. -/
theorem stubDirectories_warnings {dirs : List Text} {fs : List Finding}
    (h : stubDirectories tree cwd dirs = .ok fs) :
    ∀ f ∈ fs, f.level = .warning ∧ f.code = ("STUB_PATH_MISSING" : Text) := by
  induction dirs generalizing fs with
  | nil => cases h; simp
  | cons dir rest ih =>
    unfold stubDirectories at h
    cases hd : tree.isDirectory (cwd.append (.ofText dir)) with
    | error e => rw [hd] at h; cases h
    | ok there =>
      cases hr : stubDirectories tree cwd rest with
      | error e => rw [hd, hr] at h; cases h
      | ok more =>
        rw [hd, hr] at h
        cases h
        intro f hf
        rcases List.mem_append.mp hf with hf | hf
        · obtain ⟨-, rfl⟩ := mem_findingIf_iff.mp hf
          exact ⟨rfl, rfl⟩
        · exact ih hr f hf

/-- The findings on settings, those on stub directories apart, do not depend on files. -/
theorem settings_split (cwd : Path) (config : Settings) : ∃ before after, ∀ tree,
    settings tree cwd config =
      (stubDirectories tree cwd config.stubPaths).map fun stubs => ⟨before ++ stubs ++ after⟩ := by
  refine ⟨?before, ?after, fun tree => ?_⟩
  rotate_left 2
  -- The two lists are read off the case in which the stub directories are found out.
  · unfold settings
    cases stubDirectories tree cwd config.stubPaths with
    | error e => rfl
    | ok stubs => rfl

theorem full_isValid_of_isValid {tree' : Tree} {found' : Report}
    (h : full tree cwd s config = .ok found) (h' : full tree' cwd s config = .ok found')
    (hvalid : found.isValid = true) : found'.isValid = true := by
  obtain ⟨onSchema, r, hschema, hr, hfound⟩ := full_findings h
  obtain ⟨onSchema', r', hschema', hr', hfound'⟩ := full_findings h'
  obtain rfl : onSchema' = onSchema := Except.ok.inj (hschema'.symm.trans hschema)
  obtain ⟨before, after, hsplit⟩ := settings_split cwd config
  have hsettings : ∀ f ∈ r'.findings, f.level = .error → f ∈ r.findings := by
    rw [hsplit] at hr hr'
    cases hs : stubDirectories tree cwd config.stubPaths with
    | error e => rw [hs] at hr; cases hr
    | ok stubs =>
      cases hs' : stubDirectories tree' cwd config.stubPaths with
      | error e => rw [hs'] at hr'; cases hr'
      | ok stubs' =>
        rw [hs] at hr
        rw [hs'] at hr'
        cases hr
        cases hr'
        intro f hf hlevel
        simp only [List.mem_append] at hf ⊢
        rcases hf with (hf | hf) | hf
        · exact Or.inl (Or.inl hf)
        · rw [(stubDirectories_warnings hs' f hf).1] at hlevel
          cases hlevel
        · exact Or.inr hf
  rw [Report.isValid_iff, hfound] at hvalid
  rw [Report.isValid_iff, hfound']
  intro f hf hlevel
  refine hvalid f ?_ hlevel
  simp only [List.mem_append] at hf ⊢
  rcases hf with (hf | hf) | hf
  · exact Or.inl (Or.inl hf)
  · exact Or.inl (Or.inr (hsettings f hf hlevel))
  · exact Or.inr hf

/-- Files have no say in whether a schema is valid. -/
theorem full_isValid_congr {tree' : Tree} {found' : Report}
    (h : full tree cwd s config = .ok found) (h' : full tree' cwd s config = .ok found') :
    found.isValid = found'.isValid := by
  rw [Bool.eq_iff_iff]
  exact ⟨full_isValid_of_isValid h h', full_isValid_of_isValid h' h⟩

theorem mem_findingIf {condition : Bool} {level : Severity} {code message : Text}
    {context : Mapping} (h : condition = true) :
    (⟨level, code, message, context⟩ : Finding) ∈
      findingIf condition level code message context :=
  mem_findingIf_iff.mpr ⟨h, rfl⟩

/-- Without an error, no controller repeats the class and namespace of an earlier one. -/
theorem controllersFrom_distinct {before cs : List Controller}
    (h : ∀ f ∈ controllersFrom s config before cs, f.level ≠ .error) :
    (∀ c ∈ cs, ∀ d ∈ before, d.qualifiedName ≠ c.qualifiedName) ∧
      cs.Pairwise fun c d => c.qualifiedName ≠ d.qualifiedName := by
  induction cs generalizing before with
  | nil => simp
  | cons c rest ih =>
    have hrest := @ih (c :: before) fun f hf => h f (List.mem_append_right _ hf)
    have hc : ∀ d ∈ before, d.qualifiedName ≠ c.qualifiedName := by
      intro d hd heq
      refine h _ (List.mem_append_left _ (List.mem_append_left _ (mem_findingIf ?_))) rfl
      exact List.any_eq_true.mpr ⟨d, hd, by simpa using heq⟩
    refine ⟨List.forall_mem_cons.mpr ⟨hc, fun c' hc' d hd => ?_⟩,
      List.pairwise_cons.mpr ⟨fun c' hc' => ?_, hrest.2⟩⟩
    · exact hrest.1 c' hc' d (List.mem_cons_of_mem c hd)
    · exact hrest.1 c' hc' c List.mem_cons_self

/-- The controllers of a valid schema differ in class or namespace. -/
theorem controllers_distinct (h : full tree cwd s config = .ok found)
    (hvalid : found.isValid = true) :
    s.controllers.Pairwise fun c d => c.qualifiedName ≠ d.qualifiedName := by
  have hlevel := (Report.isValid_iff found).mp hvalid
  have hreported : ∀ f ∈ (controllers s config).findings, f ∈ found.findings :=
    fun f hf => mem_full_of_part h (controllers s config) (by simp) hf
  exact (controllersFrom_distinct fun f hf => hlevel f (hreported f hf)).2

def unknownTarget : Text := "UNKNOWN_RELATIONSHIP_TARGET"

/-- Without a warning about it, a related name that is looked for is found. -/
theorem related_found (h : full tree cwd s config = .ok found)
    (hknown : ∀ f ∈ found.findings, f.code ≠ unknownTarget) {e : Entity} (he : e ∈ s.entities)
    {r : RelationshipKind × Text} (hr : r ∈ e.related) (hkind : r.1 ≠ .morphTo) :
    ∃ target, s.entity? r.2 = some target := by
  cases ht : s.entity? r.2 with
  | some target => exact ⟨target, rfl⟩
  | none =>
    have hf : ∀ f ∈ relationship s e r, f ∈ found.findings := fun f hf =>
      mem_full_of_part h (relationships s) (by simp)
        (List.mem_flatMap.mpr ⟨e, he, List.mem_flatMap.mpr ⟨r, hr, hf⟩⟩)
    refine absurd rfl (hknown _ (hf _ (mem_findingIf ?_)))
    simp [hkind, ht]

end Check

end ApiScaffold
