import ApiScaffold.Proofs.LayeredSettings
import ApiScaffold.Proofs.NameGrammars

/-!
# Names that the checks recognise

Each check on the form of a name is compared with the language that it is meant to recognise. The
names of entities and columns, the keys of configured enum classes and the root namespace are all
read as lines, so each check takes the names of its language and in addition those with one line
feed behind them. A report tells names apart by what its findings are about, and a configuration
takes or refuses a namespace whatever its other settings are.
-/
namespace ApiScaffold

open Text Grammar

/-- Whether a report has an error with the given code about the given names. -/
def Report.Reports (r : Report) (code : Text) (context : Mapping) : Prop :=
  ∃ f ∈ r.findings, f.level = .error ∧ f.code = code ∧ f.context = context

/-- A name is reported exactly when it is bad, if the findings of a code are about bad names and
tell which. -/
theorem Report.reports_iff {α : Type} {r : Report} {code : Text} {context : α → Mapping}
    (bad : α → Prop) (hcontext : Function.Injective context) (name : α)
    (hsound : ∀ f ∈ r.findings, f.code = code → ∃ other, bad other ∧ f.context = context other)
    (hcomplete : bad name →
      ∃ f ∈ r.findings, f.level = .error ∧ f.code = code ∧ f.context = context name) :
    r.Reports code (context name) ↔ bad name := by
  constructor
  · rintro ⟨f, hf, -, hcode, habout⟩
    obtain ⟨other, hbad, hother⟩ := hsound f hf hcode
    rwa [hcontext (habout.symm.trans hother)]
  · exact hcomplete

namespace Check

variable {tree : Tree} {cwd : Path} {schema : Schema} {config : Settings} {onSettings : Report}
  {f : Finding}

theorem about_injective : Function.Injective about := by
  refine List.map_injective_iff.mpr fun a b h => ?_
  obtain ⟨hkey, hname⟩ := Prod.mk.inj h
  exact Prod.ext (Value.text.inj hkey) (Value.text.inj hname)

theorem code_of_mem_findingIf {condition : Bool} {level : Severity} {code message : Text}
    {context : Mapping} (hf : f ∈ findingIf condition level code message context) :
    f.code = code := by
  rw [(mem_findingIf_iff.mp hf).2]

/-! ### Entities and columns -/

theorem entityNames_reports {e : Entity} (he : e ∈ schema.entities) :
    (entityNames schema).Reports "INVALID_ENTITY_NAME" (about [("entity", e.name)]) ↔
      asLine isIdentifier e.name = false := by
  have hcontext : Function.Injective fun name : Text => about [("entity", name)] :=
    about_injective.comp fun a b h => by simpa using h
  refine Report.reports_iff (asLine isIdentifier · = false) hcontext e.name ?_ ?_
  · intro f hf hcode
    obtain ⟨d, -, hf⟩ := List.mem_flatMap.mp hf
    unfold entityName isEntityName at hf
    split_ifs at hf with hname
    · exact ⟨d.name, by simpa using hname, by rw [List.mem_singleton.mp hf]⟩
    · rcases List.mem_append.mp hf with hf | hf
      all_goals exact absurd ((code_of_mem_findingIf hf).symm.trans hcode) (by decide)
  · intro hname
    obtain ⟨f, hfindings, hf⟩ : ∃ f, entityName e = [f] ∧ f.level = .error ∧
        f.code = ("INVALID_ENTITY_NAME" : Text) ∧ f.context = about [("entity", e.name)] :=
      ⟨_, if_pos (by rw [isEntityName, hname]; rfl), rfl, rfl, rfl⟩
    have hmem : f ∈ entityName e := by simp [hfindings]
    exact ⟨f, List.mem_flatMap.mpr ⟨e, he, hmem⟩, hf⟩

theorem columnNames_reports {e : Entity} (he : e ∈ schema.entities) {c : Column}
    (hc : c ∈ e.columns) :
    (columnNames schema).Reports "INVALID_COLUMN_NAME"
        (about [("entity", e.name), ("column", c.name)]) ↔
      asLine isIdentifier c.name = false := by
  have hcontext : Function.Injective fun names : Text × Text =>
      about [("entity", names.1), ("column", names.2)] :=
    about_injective.comp fun a b h => by simpa [Prod.ext_iff] using h
  refine Report.reports_iff (fun names => asLine isIdentifier names.2 = false) hcontext
    (e.name, c.name) ?_ ?_
  · intro f hf hcode
    obtain ⟨d, -, hf⟩ := List.mem_flatMap.mp hf
    obtain ⟨column, -, hf⟩ := List.mem_flatMap.mp hf
    unfold columnName at hf
    dsimp only at hf
    split_ifs at hf with hname
    · exact ⟨(d.name, column.name), by simpa using hname, by rw [List.mem_singleton.mp hf]⟩
    · rcases List.mem_append.mp hf with hf | hf
      all_goals exact absurd ((code_of_mem_findingIf hf).symm.trans hcode) (by decide)
  · intro hname
    obtain ⟨f, hfindings, hf⟩ : ∃ f, columnName e c = [f] ∧ f.level = .error ∧
        f.code = ("INVALID_COLUMN_NAME" : Text) ∧
        f.context = about [("entity", e.name), ("column", c.name)] :=
      ⟨_, if_pos (by rw [hname]; rfl), rfl, rfl, rfl⟩
    have hmem : f ∈ columnName e c := by simp [hfindings]
    exact ⟨f, List.mem_flatMap.mpr ⟨e, he, List.mem_flatMap.mpr ⟨c, hc, hmem⟩⟩, hf⟩

/-! ### Settings -/

theorem settings_reports (h : settings tree cwd config = .ok onSettings) {entry : Text × Text}
    (hentry : entry ∈ config.enumClasses) :
    onSettings.Reports invalidKey (about [("key", entry.1)]) ↔
      asLine isColumnKey entry.1 = false := by
  have hcontext : Function.Injective fun key : Text => about [("key", key)] :=
    about_injective.comp fun a b h => by simpa using h
  refine Report.reports_iff (asLine isColumnKey · = false) hcontext entry.1 ?_ ?_
  · intro f hf hcode
    unfold settings at h
    cases hstubs : stubDirectories tree cwd config.stubPaths with
    | error e =>
      rw [hstubs] at h
      cases h
    | ok stubs =>
      rw [hstubs] at h
      cases h
      simp only [List.mem_append] at hf
      rcases hf with (((hf | hf) | hf) | hf) | hf
      · exact absurd ((code_of_mem_findingIf hf).symm.trans hcode) (by decide)
      · exact absurd ((code_of_mem_findingIf hf).symm.trans hcode) (by decide)
      · obtain ⟨other, -, hf⟩ := List.mem_flatMap.mp hf
        obtain ⟨hkey, rfl⟩ := mem_findingIf_iff.mp hf
        exact ⟨other.1, by simpa using hkey, rfl⟩
      · exact absurd ((stubDirectories_warnings hstubs f hf).2.symm.trans hcode) (by decide)
      · exact absurd ((code_of_mem_findingIf hf).symm.trans hcode) (by decide)
  · intro hkey
    have hmem := mem_settings_of_enumKey h hentry (mem_findingIf (by rw [hkey]; rfl))
    exact ⟨_, hmem, rfl, rfl, rfl⟩

end Check

namespace Configuration

variable {data : Mapping} {c : Configuration}

theorem exists_validated_root_iff {t : Text} :
    (∃ w, Setting.rootNamespace.validated (.text t) = .ok w) ↔
      asLine isNamespace (stripChar '\\' t) = true := by
  have hread : Setting.namespaceOf (.text t) =
      if asLine isNamespace (stripChar '\\' t) then .ok (stripChar '\\' t)
      else Checked.refuse (.rule (.namespaceForm (stripChar '\\' t))) := rfl
  unfold Setting.validated Setting.read
  rw [hread]
  split_ifs with hform
  · exact iff_of_true ⟨_, rfl⟩ hform
  · refine iff_of_false ?_ hform
    rintro ⟨w, hw⟩
    cases hw

theorem exists_check_root_iff (h : check (.mapping data) = .ok c) (t : Text) :
    (∃ c', check (.mapping (data.insert (.text "root_namespace") (.text t))) = .ok c') ↔
      asLine isNamespace (stripChar '\\' t) = true := by
  rw [← exists_validated_root_iff]
  constructor
  · rintro ⟨c', hc'⟩
    have hfound : (data.insert (.text "root_namespace") (.text t)).getText?
        Setting.rootNamespace.text = some (.text t) := by
      rw [Mapping.getText?_insert]
      exact if_pos (Value.sameKey_text.mpr rfl)
    have htaken := (check_value hc' .rootNamespace).1
    rw [taken, hfound] at htaken
    exact ⟨_, htaken⟩
  · rintro ⟨w, hw⟩
    obtain ⟨c', hc', -⟩ := check_insert h hw
    exact ⟨c', hc'⟩

end Configuration

namespace Check

variable {tree : Tree} {cwd : Path} {schema : Schema} {config : Settings} {onSettings : Report}
  {data : Mapping} {c : Configuration}

/-- The checks on names take the names of their languages, each also with one line feed behind it,
and no others: identifiers for entities and columns, identifiers with or without a capitalised
name and a dot before them for the keys of enum classes, and identifiers with backslashes between
them for the root namespace, outer backslashes aside. -/
theorem names_recognised (schema : Schema)
    (hsettings : settings tree cwd config = .ok onSettings)
    (hdata : Configuration.check (.mapping data) = .ok c) :
    (∀ e ∈ schema.entities,
      ((entityNames schema).Reports "INVALID_ENTITY_NAME" (about [("entity", e.name)]) ↔
        e.name ∉ identifiers ∧ e.name ∉ withLineFeed identifiers) ∧
      ∀ column ∈ e.columns,
        ((columnNames schema).Reports "INVALID_COLUMN_NAME"
            (about [("entity", e.name), ("column", column.name)]) ↔
          column.name ∉ identifiers ∧ column.name ∉ withLineFeed identifiers)) ∧
    (∀ entry ∈ config.enumClasses,
      (onSettings.Reports "INVALID_ENUM_CLASS_KEY" (about [("key", entry.1)]) ↔
        entry.1 ∉ columnKeys ∧ entry.1 ∉ withLineFeed columnKeys)) ∧
    ∀ t, (∃ c', Configuration.check
          (.mapping (data.insert (.text "root_namespace") (.text t))) = .ok c') ↔
        stripChar '\\' t ∈ namespaces ∨ stripChar '\\' t ∈ withLineFeed namespaces := by
  refine ⟨fun e he => ⟨?_, fun column hcolumn => ?_⟩, fun entry hentry => ?_, fun t => ?_⟩
  · exact (entityNames_reports he).trans (asLine_eq_false_iff mem_identifiers)
  · exact (columnNames_reports he hcolumn).trans (asLine_eq_false_iff mem_identifiers)
  · exact (settings_reports hsettings hentry).trans (asLine_eq_false_iff mem_columnKeys)
  · rw [Configuration.exists_check_root_iff hdata, asLine_iff mem_namespaces]

/-- Names and a key of which some have a form and some do not. -/
def mixedNames : Schema :=
  { entities := [{ name := "Blog Post", columns := [{ name := "title" }, { name := "2nd" }] }] }

def mixedKeys : Settings :=
  { enumClasses := [("Post.status", "PostStatus"), ("post.status", "PostStatus")] }

theorem mixedNames_recognised : ∃ onSettings,
    settings plainTree plainSite.cwd mixedKeys = .ok onSettings ∧
      Configuration.check (.mapping []) = .ok {} ∧
      (entityNames mixedNames).Reports "INVALID_ENTITY_NAME" (about [("entity", "Blog Post")]) ∧
      ¬(columnNames mixedNames).Reports "INVALID_COLUMN_NAME"
        (about [("entity", "Blog Post"), ("column", "title")]) ∧
      (columnNames mixedNames).Reports "INVALID_COLUMN_NAME"
        (about [("entity", "Blog Post"), ("column", "2nd")]) ∧
      ¬onSettings.Reports "INVALID_ENUM_CLASS_KEY" (about [("key", "Post.status")]) ∧
      onSettings.Reports "INVALID_ENUM_CLASS_KEY" (about [("key", "post.status")]) ∧
      (∃ c, Configuration.check
        (.mapping [(.text "root_namespace", .text "\\Blog\\Api\\")]) = .ok c) ∧
      ¬∃ c, Configuration.check
        (.mapping [(.text "root_namespace", .text "Blog\\\\Api")]) = .ok c := by
  have hdata : Configuration.check (.mapping []) = .ok {} := rfl
  obtain ⟨onSettings, hsettings⟩ :
      ∃ onSettings, settings plainTree plainSite.cwd mixedKeys = .ok onSettings := ⟨_, rfl⟩
  obtain ⟨hentities, hkeys, hroot⟩ := names_recognised mixedNames hsettings hdata
  obtain ⟨hname, hcolumns⟩ := hentities mixedNames.entities[0] List.mem_cons_self
  have htitle := hcolumns { name := "title" } List.mem_cons_self
  have hsecond := hcolumns { name := "2nd" } (List.mem_cons_of_mem _ List.mem_cons_self)
  have hgood := hkeys ("Post.status", "PostStatus") List.mem_cons_self
  have hbad := hkeys ("post.status", "PostStatus") (List.mem_cons_of_mem _ List.mem_cons_self)
  refine ⟨onSettings, hsettings, hdata, hname.mpr ?_, fun h => (htitle.mp h).1 ?_,
    hsecond.mpr ?_, fun h => (hgood.mp h).1 ?_, hbad.mpr ?_, (hroot _).mpr (Or.inl ?_),
    fun h => ?_⟩
  · exact (asLine_eq_false_iff mem_identifiers).mp (by decide)
  · exact mem_identifiers.mpr (by decide)
  · exact (asLine_eq_false_iff mem_identifiers).mp (by decide)
  · exact mem_columnKeys.mpr (by decide)
  · exact (asLine_eq_false_iff mem_columnKeys).mp (by decide)
  · exact mem_namespaces.mpr (by decide)
  · have hgap : asLine isNamespace (stripChar '\\' ("Blog\\\\Api" : Text)) = false := by decide
    obtain ⟨hout, hline⟩ := (asLine_eq_false_iff mem_namespaces).mp hgap
    exact ((hroot "Blog\\\\Api").mp h).elim hout hline

/-- An entity and a column of it whose names end in a line feed. -/
def linePost : Entity := { name := "Post\n", columns := [{ name := "title\n" }] }

/-- Names with a line feed behind them are no names of their languages, and no check minds. -/
theorem lineFeed_passes :
    (Entity.check (.mapping [(.text "name", .text "Post\n"),
        (.text "columns", .list [.mapping [(.text "name", .text "title\n")]])]) = .ok linePost ∧
      linePost.name ∉ identifiers ∧
      ¬(entityNames { entities := [linePost] }).Reports "INVALID_ENTITY_NAME"
        (about [("entity", linePost.name)]) ∧
      ∃ column ∈ linePost.columns, column.name ∉ identifiers ∧
        ¬(columnNames { entities := [linePost] }).Reports "INVALID_COLUMN_NAME"
          (about [("entity", linePost.name), ("column", column.name)])) ∧
    (∃ c onSettings, Configuration.check (.mapping
          [(.text "enum_classes", .mapping [(.text "status\n", .text "PostStatus")])]) = .ok c ∧
      settings plainTree plainSite.cwd c.settings = .ok onSettings ∧
      ∃ entry ∈ c.settings.enumClasses, entry.1 ∉ columnKeys ∧
        ¬onSettings.Reports "INVALID_ENUM_CLASS_KEY" (about [("key", entry.1)])) ∧
    ∃ c, Configuration.check (.mapping [(.text "root_namespace", .text "App\n")]) = .ok c ∧
      stripChar '\\' ("App\n" : Text) ∉ namespaces := by
  have hpost : linePost ∈ [linePost] := List.mem_cons_self
  have htitle : linePost.columns[0] ∈ linePost.columns := List.mem_cons_self
  refine ⟨⟨?_, ?_, ?_, _, htitle, ?_, ?_⟩, ?_, ?_⟩
  · exact Except.bind_eq_ok_iff.mpr ⟨_, rfl, Draft.distinctColumns_eq_ok_iff.mpr ⟨rfl, by decide⟩⟩
  · rw [mem_identifiers]
    decide
  · rw [entityNames_reports hpost]
    decide
  · rw [mem_identifiers]
    decide
  · rw [columnNames_reports hpost htitle]
    decide
  · refine ⟨{ settings := { enumClasses := [("status\n", "PostStatus")] },
              given := [.enumClasses] }, {}, rfl, rfl, _, List.mem_cons_self, ?_, ?_⟩
    · rw [mem_columnKeys]
      decide
    · rintro ⟨f, hf, -⟩
      cases hf
  · refine ⟨{ settings := { rootNamespace := "App\n" }, given := [.rootNamespace] }, rfl, ?_⟩
    rw [mem_namespaces]
    decide

end Check

end ApiScaffold
