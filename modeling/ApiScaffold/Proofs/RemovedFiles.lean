import ApiScaffold.Generation.Removal
import ApiScaffold.Proofs.Collisions
import ApiScaffold.Proofs.PathNames
import ApiScaffold.Proofs.WrittenFiles

/-!
# Removing what a generation made

Removal finds the files of a resource by a name alone: it forms a controller of that name and
takes the data object of the model that the controller serves. That name went through the
singular and the capitals once more than the name of the entity did, and lost the ending of
controller classes, so the data object may be that of another entity. The main theorem says for
each data object of a generation whether removing a resource takes it.
-/
namespace ApiScaffold

open Text

namespace Tree

variable {t t' t'' : Tree} {p : Path} {places places' : List Location}

theorem find?_unset {loc : Location} (hloc : loc ≠ []) (t : Tree) (l : Location) :
    (t.unset loc).find? l = if l = loc then none else t.find? l := by
  by_cases hl : l = []
  · rw [hl, find?_root, find?_root, if_neg hloc.symm]
  rw [find?_of_ne_nil hl, find?_of_ne_nil hl]
  unfold unset
  rw [List.find?_filter]
  by_cases heq : l = loc
  · rw [if_pos heq, Option.map_eq_none_iff, List.find?_eq_none]
    intro e _
    simp [heq]
  · have hsame : ∀ e : Location × Node, decide (decide (e.1 ≠ loc) = true ∧
        decide (e.1 = l) = true) = decide (e.1 = l) := by
      intro e
      by_cases he : e.1 = l <;> simp [he, heq]
    simp only [if_neg heq, hsame]

/-- Some places may have been emptied; everything else is as it was. -/
def Cleared (t t' : Tree) (places : List Location) : Prop :=
  ∀ l, t'.find? l = t.find? l ∨ l ∈ places ∧ t'.find? l = none

theorem Cleared.refl (t : Tree) (places : List Location) : t.Cleared t places :=
  fun _ => Or.inl rfl

theorem Cleared.trans (h : t.Cleared t' places) (h' : t'.Cleared t'' places') :
    t.Cleared t'' (places ++ places') := by
  intro l
  rcases h' l with hsame | ⟨hmem, hnone⟩
  · rw [hsame]
    exact (h l).imp id fun hl => ⟨List.mem_append_left _ hl.1, hl.2⟩
  · exact Or.inr ⟨List.mem_append_right _ hmem, hnone⟩

/-- What is not there cannot come back. -/
theorem Cleared.none (h : t.Cleared t' places) {l : Location} (hl : t.find? l = none) :
    t'.find? l = none :=
  (h l).elim (fun hsame => hsame.trans hl) And.right

theorem Cleared.apart (h : t.Cleared t' places) {l : Location} (hl : l ∉ places) :
    t'.find? l = t.find? l :=
  (h l).resolve_right fun hno => hl hno.1

theorem place_ne_nil_of_fileTarget {loc : Location} (h : t.fileTarget p = .ok loc) :
    loc = p.place ∧ p.place ≠ [] := by
  obtain ⟨hloc, hplace, -⟩ := fileTarget_ok h
  refine ⟨hloc, fun hnil => ?_⟩
  rw [hnil, find?_root] at hplace
  exact hplace rfl

theorem cleared_of_removeFile (h : t.removeFile p = .ok t') : t.Cleared t' [p.place] := by
  unfold removeFile at h
  cases hf : t.fileTarget p with
  | error e => rw [hf] at h; cases h
  | ok loc =>
    obtain ⟨rfl, hne⟩ := place_ne_nil_of_fileTarget hf
    rw [hf, Except.bind] at h
    split_ifs at h
    cases h
    intro l
    rw [find?_unset hne]
    by_cases hl : l = p.place
    · exact Or.inr ⟨List.mem_singleton.mpr hl, if_pos hl⟩
    · exact Or.inl (if_neg hl)

/-- A file can be removed. -/
theorem removeFile_of_isFile (h : t.isFile p = .ok true) :
    ∃ t', t.removeFile p = .ok t' ∧ t'.find? p.place = none := by
  obtain ⟨hlocate, content, hfile⟩ := isFile_iff.mp h
  have htarget : t.fileTarget p = .ok p.place := by
    unfold fileTarget
    simp only [hlocate, hfile]
  refine ⟨t.unset p.place, ?_, ?_⟩
  · unfold removeFile
    rw [htarget, Except.bind, hfile]
    rfl
  · rw [find?_unset (place_ne_nil_of_fileTarget htarget).2, if_pos rfl]

end Tree

namespace Emitter

variable {em em' : Emitter} {t t' : Tree} {path : Text} {there : Bool}

/-- Taking a file away empties its place at most. -/
theorem cleared_of_remove (em : Emitter) (t : Tree) (path : Text) :
    t.Cleared (em.remove t path).1 [(em.target path).place] := by
  unfold remove
  simp only
  split
  · exact .refl _ _
  · exact .refl _ _
  · split_ifs
    · exact .refl _ _
    · split
      · exact .refl _ _
      · rename_i hremove
        exact Tree.cleared_of_removeFile hremove

/-- The emitter goes on as it was, its manifest apart. -/
theorem target_of_remove (h : em.remove t path = (t', .ok (there, em'))) :
    em'.target = em.target ∧ em'.dryRun = em.dryRun := by
  unfold remove at h
  simp only at h
  split at h
  · cases h
  · cases h
    exact ⟨rfl, rfl⟩
  · split_ifs at h
    · cases h
      exact ⟨rfl, rfl⟩
    · split at h
      · cases h
      · cases h
        exact ⟨rfl, rfl⟩

theorem remove_of_isFile (hdry : em.dryRun = false) (h : t.isFile (em.target path) = .ok true) :
    (em.remove t path).1.find? (em.target path).place = none := by
  obtain ⟨t', hremove, hnone⟩ := Tree.removeFile_of_isFile h
  unfold remove
  simp only [h, hdry, hremove]
  exact hnone

end Emitter

namespace Removal

variable {em : Emitter} {t : Tree}

/-- Taking files away empties their places at most, however far it comes. -/
theorem cleared_of_removeAll (em : Emitter) (t : Tree) (paths : List Text) :
    t.Cleared (removeAll em t paths).tree (paths.map fun path => (em.target path).place) := by
  induction paths generalizing em t with
  | nil => exact .refl _ _
  | cons path rest ih =>
    have hfirst := em.cleared_of_remove t path
    rw [removeAll, List.map_cons, ← List.singleton_append]
    split
    · rename_i hremove
      rw [hremove] at hfirst
      exact hfirst.trans (.refl _ _)
    · rename_i t' there em' hremove
      rw [hremove] at hfirst
      have hrest := ih em' t'
      rw [(Emitter.target_of_remove hremove).1] at hrest
      exact hfirst.trans hrest

/-- The first of some files is taken away if it is there, whatever becomes of the others. -/
theorem removeAll_head {path : Text} {rest : List Text} (hdry : em.dryRun = false)
    (h : t.isFile (em.target path) = .ok true) :
    (removeAll em t (path :: rest)).tree.find? (em.target path).place = none := by
  have hnone := Emitter.remove_of_isFile hdry h
  rw [removeAll]
  split
  · rename_i hremove
    rwa [hremove] at hnone
  · rename_i t' there em' hremove
    rw [hremove] at hnone
    exact (cleared_of_removeAll em' t' rest).none hnone

/-- A controller and a data object have different classes, by their last letters. -/
theorem className_ne_dataClass (c : Controller) (name : Text) :
    c.className ≠ ClassNames.dataClass name := by
  intro heq
  have hends := congrArg List.getLast? heq
  unfold Controller.className ClassNames.dataClass at hends
  have hcontroller : Controller.classSuffix.getLast? = some 'r' := by decide
  have hdata : ("Data" : Text).getLast? = some 'a' := by decide
  rw [List.getLast?_append, List.getLast?_append, hcontroller, hdata] at hends
  exact absurd (Option.some.inj hends) (by decide)

/-- The controller whose files are removed under a name. -/
def named (s : Settings) (name : Text) : Controller := { name, space := s.controllerNamespace }

/-- The class of the data object that is removed under a name. -/
def dataClass (name : Text) : Text := ClassNames.dataClass (Controller.modelName { name })

/-- Under a name, the controller is the one that would be made for an entity of that name, and
the data object is that of an entity when both have one class. -/
theorem paths_named (s : Settings) (e : Entity) :
    ∃ first, paths s (named s e.name) = [first, ControllerFile.path s (Job.scaffold s e)] ∧
      (first = DataFile.path s e ↔ dataClass e.name = ClassNames.dataClass e.name) :=
  ⟨_, rfl, DataFile.path_eq_iff s { name := (named s e.name).modelName } e⟩

section
variable {site : Site} {s : Settings} {output directory : Path} {name : Text}

theorem resource_tree (hname : name ≠ []) (hreal : Path.real site.cwd output = .ok directory) :
    (resource site s t name output false).tree =
      (removeAll (Emitter.start directory true false) t (paths s (named s name))).tree := by
  have hmake : Controller.make { name, space := s.controllerNamespace } = .ok (named s name) := by
    cases name with
    | nil => exact absurd rfl hname
    | cons c cs => rfl
  unfold resource
  rw [hmake, hreal]
  dsimp only
  split <;> rfl

/-- A data object is taken away when its class is that of the name, and no other is touched. -/
theorem resource_data (hname : name ≠ []) (hreal : Path.real site.cwd output = .ok directory)
    {f : Entity} (hfile : t.isFile ((Job.data f).target directory s) = .ok true) :
    (resource site s t name output false).tree.find? ((Job.data f).target directory s).place =
      if dataClass name = ClassNames.dataClass f.name then none
      else t.find? ((Job.data f).target directory s).place := by
  have hfirst : ClassNames.dataPath s (named s name).modelName =
      (Job.data { name := (named s name).modelName }).path s := rfl
  rw [resource_tree hname hreal, paths]
  split_ifs with hclass
  · have hpath : ClassNames.dataPath s (named s name).modelName = DataFile.path s f :=
      (DataFile.path_eq_iff s { name := (named s name).modelName } f).mpr hclass
    rw [hpath]
    exact removeAll_head rfl hfile
  · refine (cleared_of_removeAll _ t _).apart fun hmem => ?_
    -- The places of the two removed files and of this one end in their names.
    have hlast := Job.place_getLast? directory s (.data f)
    have hdata := Job.place_getLast? directory s (.data { name := (named s name).modelName })
    have hcontroller := Job.place_getLast? directory s (.controller (named s name) none)
    rcases List.mem_cons.mp hmem with heq | hmem
    · rw [heq] at hlast
      have hnames := Option.some.inj (hdata.symm.trans hlast)
      exact hclass (List.append_cancel_right hnames)
    · rw [List.mem_singleton.mp hmem] at hlast
      have hnames := List.append_cancel_right (Option.some.inj (hcontroller.symm.trans hlast))
      exact className_ne_dataClass _ _ hnames

end

end Removal

/-- The entities of a valid schema have names. -/
theorem Check.entityName_ne_nil {tree : Tree} {cwd : Path} {schema : Schema} {s : Settings}
    {found : Report} (hfull : Check.full tree cwd schema s = .ok found)
    (hvalid : found.isValid = true) {e : Entity} (he : e ∈ schema.entities) : e.name ≠ [] := by
  intro hnil
  have hlevel := (Report.isValid_iff found).mp hvalid
  have hname : ∀ f ∈ entityName e, f ∈ found.findings := fun f hf =>
    mem_full_of_part hfull (entityNames schema) (by simp) (List.mem_flatMap.mpr ⟨e, he, hf⟩)
  unfold entityName at hname
  rw [hnil] at hname
  exact hlevel _ (hname _ List.mem_cons_self) rfl

namespace Removal

variable {site : Site} {tree : Tree} {schema : Schema} {s : Settings} {found : Report}
  {e : Entity}

/-- Where the data object of an entity is put. -/
def dataPlace (site : Site) (s : Settings) (output : Path) (e : Entity) : Location :=
  ((Job.data e).target (Path.resolve site.cwd output) s).place

/-- After a successful generation, removing a name takes the data objects of its class and leaves
all others as they are. -/
theorem resource_generated {mode : Mode} {output : Path} {r : GenerationReport} {name : Text}
    (hr : (Generation.ofSchema site mode tree schema s output).value = .ok r)
    (hsuccess : r.success = true) (hdry : mode.dryRun = false) (hdata : s.generateData = true)
    (hname : name ≠ []) {f : Entity} (hf : f ∈ schema.entities) :
    ∃ content, (Generation.ofSchema site mode tree schema s output).tree.find?
          (dataPlace site s output f) = some (.file content) ∧
      (resource site s (Generation.ofSchema site mode tree schema s output).tree name output
          false).tree.find? (dataPlace site s output f) =
        if dataClass name = ClassNames.dataClass f.name then none else some (.file content) := by
  have hjob : Job.data f ∈ Job.all schema s := by
    rw [Job.all_eq]
    exact List.mem_append_right _ (Job.mem_dataJobs.mpr ⟨hdata, f, hf, rfl⟩)
  have hfile := Generation.isFile_of_success hr hsuccess hdry _ hjob
  obtain ⟨-, content, hcontent⟩ := Tree.isFile_iff.mp hfile
  have hreal : Path.real site.cwd output = .ok (Path.resolve site.cwd output) := by
    unfold Generation.ofSchema Generation.proceed at hr
    unfold Path.real at hr ⊢
    split_ifs at hr ⊢
    rfl
  have hremoved := resource_data hname hreal hfile
  rw [hcontent] at hremoved
  exact ⟨content, hcontent, hremoved⟩

/-- Removing an entity of a valid schema is aimed at the controller that would be made for it,
and at its own data object exactly when the model of that controller has the same data class as
the entity, as it does when the name of the entity survives the way back. After a successful
generation it takes the data objects of that class and leaves all others as they are. -/
theorem resource_of_entity (hfull : Check.full tree site.cwd schema s = .ok found)
    (hvalid : found.isValid = true) (he : e ∈ schema.entities) :
    (∃ first, paths s (named s e.name) = [first, ControllerFile.path s (Job.scaffold s e)] ∧
      (first = DataFile.path s e ↔ dataClass e.name = ClassNames.dataClass e.name)) ∧
    ((Job.scaffold s e).modelName = e.name → dataClass e.name = ClassNames.dataClass e.name) ∧
    ∀ mode output r, (Generation.ofSchema site mode tree schema s output).value = .ok r →
      r.success = true → mode.dryRun = false → s.generateData = true →
      ∀ f ∈ schema.entities, ∃ content,
        (Generation.ofSchema site mode tree schema s output).tree.find?
            (dataPlace site s output f) = some (.file content) ∧
        (resource site s (Generation.ofSchema site mode tree schema s output).tree e.name output
            false).tree.find? (dataPlace site s output f) =
          if dataClass e.name = ClassNames.dataClass f.name then none
          else some (.file content) := by
  refine ⟨paths_named s e, fun hback => ?_, fun mode output r hr hsuccess hdry hdata f hf => ?_⟩
  · exact congrArg ClassNames.dataClass hback
  · exact resource_generated hr hsuccess hdry hdata (Check.entityName_ne_nil hfull hvalid he) hf

theorem servedAndUnserved_resource :
    ∃ found, Check.full plainTree plainSite.cwd servedAndUnserved everyModel = .ok found ∧
      found.isValid = true ∧
      ∃ r, (Generation.ofSchema plainSite {} plainTree servedAndUnserved everyModel
          Generation.newOutput).value = .ok r ∧ r.success = true ∧
        ∃ post ∈ servedAndUnserved.entities, (resource plainSite everyModel
          (Generation.ofSchema plainSite {} plainTree servedAndUnserved everyModel
            Generation.newOutput).tree post.name Generation.newOutput false).tree.find?
              (dataPlace plainSite everyModel Generation.newOutput post) = none := by
  obtain ⟨found, hfull, hvalid⟩ := Job.exists_servedAndUnserved_findings
  obtain ⟨r, hr, hsuccess⟩ : ∃ r, (Generation.ofSchema plainSite {} plainTree servedAndUnserved
      everyModel Generation.newOutput).value = .ok r ∧ r.success = true :=
    exists_ok_of_any (by decide +kernel)
  have hpost := resource_of_entity hfull hvalid List.mem_cons_self
  obtain ⟨content, -, hremoved⟩ :=
    hpost.2.2 {} Generation.newOutput r hr hsuccess rfl rfl _ List.mem_cons_self
  rw [if_pos (hpost.2.1 (by decide +kernel))] at hremoved
  exact ⟨found, hfull, hvalid, r, hr, hsuccess, _, List.mem_cons_self, hremoved⟩

/-- Two models, one with a name like that of the controller of the other. -/
def userAndController : Schema :=
  { entities := [{ name := "User", columns := [{ name := "title" }] },
      { name := "UserController", columns := [{ name := "body", dataType := "text" }] }] }

/-- Removing the second model is aimed at the data object of the first: that one is taken, and
the own one of the second stays. -/
theorem userController_takes_user :
    (∃ found, Check.full plainTree plainSite.cwd userAndController {} = .ok found ∧
      found.isValid = true) ∧
    (∃ r, (Generation.ofSchema plainSite {} plainTree userAndController {}
      Generation.newOutput).value = .ok r ∧ r.success = true) ∧
    ∃ user ∈ userAndController.entities, ∃ second ∈ userAndController.entities,
      DataFile.path {} second ∉ paths {} (named {} second.name) ∧
      ∃ left, left = (resource plainSite {} (Generation.ofSchema plainSite {} plainTree
          userAndController {} Generation.newOutput).tree second.name Generation.newOutput
            false).tree ∧
        (left.find? (dataPlace plainSite {} Generation.newOutput second)).isSome = true ∧
        left.find? (dataPlace plainSite {} Generation.newOutput user) = none := by
  obtain ⟨r, hr, hsuccess⟩ : ∃ r, (Generation.ofSchema plainSite {} plainTree userAndController {}
      Generation.newOutput).value = .ok r ∧ r.success = true :=
    exists_ok_of_any (by decide +kernel)
  have hname : ("UserController" : Text) ≠ [] := by decide
  obtain ⟨_, -, huser⟩ := resource_generated hr hsuccess rfl rfl hname List.mem_cons_self
  obtain ⟨_, -, hsecond⟩ := resource_generated hr hsuccess rfl rfl hname
    (List.mem_cons_of_mem _ List.mem_cons_self)
  rw [if_pos (by decide +kernel)] at huser
  rw [if_neg (by decide +kernel)] at hsecond
  refine ⟨exists_ok_of_any (by decide +kernel), ⟨r, hr, hsuccess⟩, _, List.mem_cons_self, _,
    List.mem_cons_of_mem _ List.mem_cons_self, by decide +kernel, _, rfl, ?_, huser⟩
  rw [hsecond]
  rfl

end Removal

end ApiScaffold
