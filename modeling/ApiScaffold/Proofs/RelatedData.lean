import ApiScaffold.Proofs.EntityLookup
import ApiScaffold.Proofs.Findings
import ApiScaffold.Proofs.NameCharacters
import ApiScaffold.Proofs.RenderingFailures

/-!
# Data classes that data files refer to

A data file imports a class for each related name, and the name of the class is made of the
related name alone. The checks ask instead whether some entity goes by that name, in one spelling
or another, and do not ask at all about names that a record of any kind may belong to. The main
theorem says exactly when every class that is imported for a related name is declared.
-/
namespace ApiScaffold

open Text ClassNames

namespace Text

theorem stripChar_of_not_mem {c : Char} {t : Text} (h : c ∉ t) : stripChar c t = t := by
  have hkeep : ∀ {u : Text}, c ∉ u → u.dropWhile (· == c) = u := by
    intro u hu
    cases u with
    | nil => rfl
    | cons d rest =>
      have hd : d ≠ c := fun heq => hu (heq ▸ List.mem_cons_self)
      exact List.dropWhile_cons_of_neg (by simp [hd])
  unfold stripChar strip stripRight stripLeft
  rw [hkeep h, hkeep (by simpa using h), List.reverse_reverse]

end Text

namespace Imports

theorem any_addClaim (name owner other : Text) (claims : List (Text × List Text)) :
    ((addClaim name owner claims).any fun claim => claim.1 = other) =
      (claims.any (fun claim => claim.1 = other) || decide (name = other)) := by
  induction claims with
  | nil => simp [addClaim]
  | cons claim rest ih =>
    unfold addClaim
    by_cases heq : claim.1 = name
    · by_cases hother : name = other <;> simp [heq, hother]
    · rw [if_neg heq, List.any_cons, List.any_cons, ih, Bool.or_assoc]

theorem contains_add (r : Imports) (name other : Text) :
    (r.add name).contains other =
      (r.contains other || decide (normalName name = normalName other)) :=
  any_addClaim _ _ _ _

theorem contains_addAll (r : Imports) (names : List Text) (other : Text) :
    (r.addAll names).contains other =
      (r.contains other || names.any fun name => normalName name = normalName other) := by
  unfold addAll
  induction names generalizing r with
  | nil => simp
  | cons name rest ih =>
    rw [List.foldl_cons, ih, contains_add, List.any_cons, Bool.or_assoc]

end Imports

theorem dataClass_ne_nil (name : Text) : dataClass name ≠ [] := by
  simp [dataClass]

theorem backslash_not_mem_dataClass (name : Text) : '\\' ∉ dataClass name :=
  not_mem_studly_append (by decide) _ (by decide)

/-- The data class of a name is in the namespace of all data classes. -/
theorem qualifiedData_eq (s : Settings) (name : Text) :
    qualifiedData s name = s.qualify ["Data"] ++ "\\" ++ dataClass name := by
  have hparts : ([("Data" : Text), dataClass name].filter (· ≠ [])).map (stripChar '\\') =
      [("Data" : Text), dataClass name] := by
    have hfilter : [("Data" : Text), dataClass name].filter (· ≠ []) =
        [("Data" : Text), dataClass name] := by
      simp [dataClass_ne_nil]
    rw [hfilter, List.map_cons, List.map_cons, List.map_nil,
      stripChar_of_not_mem (backslash_not_mem_dataClass name)]
    rfl
  have hspace : s.qualify ["Data"] = s.rootNamespace ++ "\\" ++ "Data" := rfl
  unfold qualifiedData
  rw [hspace, Settings.qualify, hparts, join_cons_cons, join_cons_cons, join_single]
  simp only [List.append_assoc]

namespace DataFile

/-- The class that the file of an entity declares, with its namespace. -/
def declaredClass (s : Settings) (e : Entity) : Text :=
  s.qualify ["Data"] ++ "\\" ++ dataClass e.name

theorem qualifiedData_eq_declaredClass {s : Settings} {name : Text} {e : Entity} :
    qualifiedData s name = declaredClass s e ↔ entityForm name = entityForm e.name := by
  unfold declaredClass dataClass
  rw [qualifiedData_eq, List.append_cancel_left_eq, dataClass, List.append_cancel_right_eq]

theorem fresh_subset (taken : List Text) (ps : List Property) : fresh taken ps ⊆ ps := by
  induction ps generalizing taken with
  | nil => exact List.Subset.refl _
  | cons p rest ih =>
    unfold fresh
    split_ifs
    · exact List.subset_cons_of_subset p (ih taken)
    · exact List.cons_subset_cons p (ih _)

/-- The related names that an entity has a property for. -/
def shown (s : Settings) (e : Entity) (r : RelationshipKind × Text) : Prop :=
  r ∈ e.related ∧ relatedProperty s r ∈ relatedProperties s e

theorem mem_relatedProperties {s : Settings} {e : Entity} {p : Property} :
    p ∈ relatedProperties s e ↔ ∃ r, shown s e r ∧ p = relatedProperty s r := by
  constructor
  · intro hp
    obtain ⟨r, hr, rfl⟩ := List.mem_map.mp (fresh_subset _ _ hp)
    exact ⟨r, ⟨hr, hp⟩, rfl⟩
  · rintro ⟨r, hr, rfl⟩
    exact hr.2

/-- What a property refers to is imported. -/
theorem imports_contains {properties : List Property} {p : Property} {cls : Text}
    (hp : p ∈ properties) (hcls : cls ∈ p.classes) : (imports properties).contains cls = true := by
  unfold imports
  rw [Imports.contains_addAll, Bool.or_eq_true, List.any_eq_true]
  refine Or.inr ⟨cls, List.mem_cons_of_mem _ (List.mem_flatMap.mpr ⟨p, hp, hcls⟩), ?_⟩
  exact decide_eq_true rfl

variable {site : Site} {tree : Tree} {schema : Schema} {s : Settings} {found : Report}
  {arts : List Artifact} {stub : Text}

/-- Every entity gets the file of its data object. -/
theorem exists_file_of_render (hdata : s.generateData = true)
    (hstub : Job.lookup site s tree classStub = .ok (some stub))
    (hrender : renderSchema site tree schema s = .ok arts) {e : Entity}
    (he : e ∈ schema.entities) :
    ∃ ps, properties s e = .ok ps ∧ fileOf s e stub ps ∈ arts := by
  obtain ⟨outs, ho, rfl⟩ := Job.renderSchema_ok hrender
  have hjob : Job.data e ∈ Job.all schema s := by
    rw [Job.all_eq]
    exact List.mem_append_right _ (Job.mem_dataJobs.mpr ⟨hdata, e, he, rfl⟩)
  obtain ⟨o, hmem, hout⟩ := Job.mem_of_outcomes ho hjob
  simp only [Job.outcome, Job.classStub, hstub, Job.fileFrom, Except.map_eq_ok_iff,
    Except.mapError_eq_ok_iff, artifact] at hout
  obtain ⟨_, ⟨ps, hps, rfl⟩, rfl⟩ := hout
  exact ⟨ps, hps, List.mem_filterMap.mpr ⟨_, hmem, rfl⟩⟩

/-- What the checks leave open about a related name: that some data file is named after it. -/
def NamesData (schema : Schema) (r : RelationshipKind × Text) : Prop :=
  (r.1 = .morphTo → ∃ d ∈ schema.entities, entityForm r.2 = entityForm d.name) ∧
    (r.1 ≠ .morphTo → ∀ t, schema.entity? r.2 = some t → t.name ≠ r.2 →
      ∃ d ∈ schema.entities, t.name = entityForm d.name)

theorem namesData_iff (hfull : Check.full tree site.cwd schema s = .ok found)
    (hknown : ∀ f ∈ found.findings, f.code ≠ Check.unknownTarget) {e : Entity}
    (he : e ∈ schema.entities) {r : RelationshipKind × Text} (hr : r ∈ e.related) :
    NamesData schema r ↔ ∃ d ∈ schema.entities, entityForm r.2 = entityForm d.name := by
  by_cases hkind : r.1 = .morphTo
  · exact ⟨fun h => h.1 hkind, fun h => ⟨fun _ => h, fun hno => absurd hkind hno⟩⟩
  obtain ⟨t, ht⟩ := Check.related_found hfull hknown he hr hkind
  obtain ⟨hmem, hrefers⟩ := Schema.entity?_some ht
  constructor
  · intro h
    rcases hrefers with hname | ⟨-, hform⟩
    · exact ⟨t, hmem, by rw [hname]⟩
    · by_cases hname : t.name = r.2
      · exact ⟨t, hmem, by rw [hname]⟩
      · rw [← hform]
        exact h.2 hkind t ht hname
  · refine fun h => ⟨fun _ => h, fun _ t' ht' hname => ?_⟩
    rcases (Schema.entity?_some ht').2 with heq | ⟨-, hform⟩
    · exact absurd heq hname
    · rwa [hform]

/-- Every data class that is imported for a related name is declared by a data file of the same
rendering exactly when the related names that have a property name such a file. -/
theorem related_classes_declared_iff (hfull : Check.full tree site.cwd schema s = .ok found)
    (hknown : ∀ f ∈ found.findings, f.code ≠ Check.unknownTarget)
    (hdata : s.generateData = true)
    (hstub : Job.lookup site s tree classStub = .ok (some stub))
    (hrender : renderSchema site tree schema s = .ok arts) :
    (∀ e ∈ schema.entities, ∃ ps, properties s e = .ok ps ∧ fileOf s e stub ps ∈ arts ∧
        ∀ p ∈ relatedProperties s e, p ∈ ps ∧ ∀ cls ∈ p.classes,
          (imports ps).contains cls = true ∧
            ∃ d ∈ schema.entities, (∃ a, artifact s d stub = .ok a ∧ a ∈ arts) ∧
              cls = declaredClass s d) ↔
      ∀ e ∈ schema.entities, ∀ r, shown s e r → NamesData schema r := by
  constructor
  · intro h e he r hr
    obtain ⟨ps, -, -, hclasses⟩ := h e he
    obtain ⟨-, d, hd, -, hcls⟩ := (hclasses _ hr.2).2 _ List.mem_cons_self
    exact (namesData_iff hfull hknown he hr.1).mpr
      ⟨d, hd, qualifiedData_eq_declaredClass.mp hcls⟩
  · intro h e he
    obtain ⟨ps, hps, hmem⟩ := exists_file_of_render hdata hstub hrender he
    refine ⟨ps, hps, hmem, fun p hp => ?_⟩
    have hprop : p ∈ ps := by
      obtain ⟨columns, -, rfl⟩ := properties_eq_ok_iff.mp hps
      exact List.mem_append_right _ hp
    refine ⟨hprop, fun cls hcls => ⟨imports_contains hprop hcls, ?_⟩⟩
    obtain ⟨r, hr, rfl⟩ := mem_relatedProperties.mp hp
    obtain ⟨d, hd, hform⟩ := (namesData_iff hfull hknown he hr.1).mp (h e he r hr)
    obtain ⟨others, hothers, hfile⟩ := exists_file_of_render hdata hstub hrender hd
    rw [List.mem_singleton.mp hcls]
    exact ⟨d, hd, ⟨_, Except.map_eq_ok_iff.mpr ⟨others, hothers, rfl⟩, hfile⟩,
      qualifiedData_eq_declaredClass.mpr hform⟩

/-- A related name that is found in another spelling than that of its data class, and a name
that no entity has to go by. -/
def strayNames : Schema :=
  { entities := [{ name := "Data", columns := [{ name := "title" }] },
      { name := "Post", relationships := [(.hasMany, ["datas"])] },
      { name := "Image", relationships := [(.morphTo, ["imageable"])] }] }

theorem strayNames_undeclared :
    ∃ found arts, Check.full plainTree plainSite.cwd strayNames {} = .ok found ∧
      found.isValid = true ∧ (∀ f ∈ found.findings, f.code ≠ Check.unknownTarget) ∧
      Job.lookup plainSite {} plainTree classStub = .ok (some []) ∧
      Job.lookup plainSite {} plainTree ControllerFile.classStub = .ok (some []) ∧
      renderSchema plainSite plainTree strayNames {} = .ok arts ∧
      ∀ cls ∈ ([("App\\Data\\DataData" : Text), "App\\Data\\ImageableData"] : List Text),
        (∃ e ∈ strayNames.entities, ∃ p ∈ relatedProperties {} e, cls ∈ p.classes) ∧
          ∀ d ∈ strayNames.entities, cls ≠ declaredClass {} d :=
  ⟨_, _, rfl, by decide +kernel, by decide +kernel, by rfl, by rfl, rfl, by decide +kernel⟩

/-- Two entities that refer to each other, one of them in another spelling. -/
def postAndComments : Schema :=
  { entities := [{ name := "Post", relationships := [(.hasMany, ["comments"])] },
      { name := "Comment", relationships := [(.belongsTo, ["Post"]), (.morphTo, ["post"])] }] }

theorem postAndComments_declared :
    ∃ arts, renderSchema plainSite plainTree postAndComments {} = .ok arts ∧
      ((∀ e ∈ postAndComments.entities, ∃ ps, properties {} e = .ok ps ∧
          fileOf {} e [] ps ∈ arts ∧
            ∀ p ∈ relatedProperties {} e, p ∈ ps ∧ ∀ cls ∈ p.classes,
              (imports ps).contains cls = true ∧
                ∃ d ∈ postAndComments.entities, (∃ a, artifact {} d [] = .ok a ∧ a ∈ arts) ∧
                  cls = declaredClass {} d) ↔
        ∀ e ∈ postAndComments.entities, ∀ r, shown {} e r → NamesData postAndComments r) := by
  obtain ⟨found, hfull, hknown⟩ : ∃ found, Check.full plainTree plainSite.cwd postAndComments
      {} = .ok found ∧ ∀ f ∈ found.findings, f.code ≠ Check.unknownTarget :=
    ⟨_, rfl, by decide +kernel⟩
  obtain ⟨arts, hrender⟩ : ∃ arts, renderSchema plainSite plainTree postAndComments {} =
      .ok arts := ⟨_, rfl⟩
  exact ⟨arts, hrender, related_classes_declared_iff hfull hknown rfl rfl hrender⟩

end DataFile

end ApiScaffold
