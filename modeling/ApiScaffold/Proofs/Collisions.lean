import ApiScaffold.Proofs.Findings
import ApiScaffold.Proofs.NameCharacters
import ApiScaffold.Proofs.Rendering

/-!
# Files of one generation that meet

A path is made of names that lost their spelling on the way: data objects drop plurals and
case, controllers also drop the backslashes that a namespace has too many. The checks compare
entity names and qualified controller names as they are, so two files of a valid schema may
still have one path. The main theorem says exactly when they do not. Paths are compared as
texts; two different paths may still lead to one place, for instance through a name of a
single dot.
-/
namespace ApiScaffold

open Text ClassNames

/-- Two controllers are written to one file. -/
def Controller.SharesFile (c d : Controller) : Prop :=
  folder c.space = folder d.space ∧ c.className = d.className

theorem ControllerFile.path_eq_iff (s : Settings) (c d : Controller) :
    ControllerFile.path s c = ControllerFile.path s d ↔ c.SharesFile d := by
  unfold ControllerFile.path Controller.SharesFile
  rw [controllerPath_eq, controllerPath_eq, List.append_cancel_left_eq,
    List.append_cancel_left_eq, List.append_cancel_right_eq]
  constructor
  · exact append_inj_last (folder_nil_or_slash _) (folder_nil_or_slash _)
      c.slash_not_mem_className d.slash_not_mem_className
  · rintro ⟨hf, hc⟩
    rw [hf, hc]

theorem DataFile.path_eq_iff (s : Settings) (e f : Entity) :
    DataFile.path s e = DataFile.path s f ↔ dataClass e.name = dataClass f.name := by
  unfold DataFile.path
  rw [dataPath_eq, dataPath_eq, List.append_cancel_left_eq, List.append_cancel_left_eq,
    List.append_cancel_right_eq]

/-- The directories of controllers and of data objects differ in their first letter. -/
theorem controllerPath_ne_dataPath (s : Settings) (c : Controller) (e : Entity) :
    ControllerFile.path s c ≠ DataFile.path s e := by
  unfold ControllerFile.path DataFile.path
  rw [controllerPath_eq, dataPath_eq, Ne, List.append_cancel_left_eq]
  intro h
  have hhead := congrArg List.head? h
  simp at hhead

namespace Job

/-- What no check asks of the generated controllers: namespaces that are written differently
have different directories where they have a class in common, and the class of a controller
made for an entity is not that of another controller beside it. -/
structure ControllersApart (schema : Schema) (s : Settings) : Prop where
  declared : (declared schema s).Pairwise fun c d => c.space ≠ d.space → ¬c.SharesFile d
  beside : ∀ c ∈ Job.declared schema s, ∀ e ∈ unserved schema s, ¬c.SharesFile (scaffold s e)
  scaffolds : (unserved schema s).Pairwise fun e f =>
    (scaffold s e).className ≠ (scaffold s f).className

theorem controllersApart_iff {schema : Schema} {s : Settings}
    (hkeys : schema.controllers.Pairwise fun c d => c.qualifiedName ≠ d.qualifiedName) :
    ((controllers schema s).map (ControllerFile.path s)).Nodup ↔ ControllersApart schema s := by
  have hdeclared : (declared schema s).Pairwise fun c d => c.qualifiedName ≠ d.qualifiedName :=
    hkeys.sublist List.filter_sublist
  have hspace : (declared schema s).Pairwise (fun c d => ¬c.SharesFile d) ↔
      (declared schema s).Pairwise fun c d => c.space ≠ d.space → ¬c.SharesFile d := by
    constructor
    · exact fun h => h.imp fun {c d} hcd (_ : c.space ≠ d.space) => hcd
    · intro h
      refine h.imp₂ (fun c d hcd hkey hshare => ?_) hdeclared
      -- Equal namespaces and a common class would be one key twice.
      by_cases hs : c.space = d.space
      · exact hkey (Controller.qualifiedName_inj.mpr ⟨hs, hshare.2⟩)
      · exact hcd hs hshare
  rw [controllers_eq, List.Nodup, List.pairwise_map, List.pairwise_append, List.pairwise_map]
  simp only [ne_eq, ControllerFile.path_eq_iff, hspace, List.forall_mem_map]
  constructor
  · rintro ⟨hd, hsc, hb⟩
    exact ⟨hd, hb, hsc.imp fun hef hcls => hef ⟨rfl, hcls⟩⟩
  · rintro ⟨hd, hb, hsc⟩
    exact ⟨hd, hsc.imp fun hef hshare => hef hshare.2, hb⟩

section
variable {site : Site} {tree : Tree} {schema : Schema} {s : Settings} {jobs : List Job}
  {stub : Text}

theorem served_of_offers (hstub : ∀ job ∈ jobs, job.classStub = stub)
    (h : Offers site s tree stub) : served site s tree jobs = jobs := by
  refine List.filter_eq_self.mpr fun job hjob => ?_
  rw [finds_repository, hstub job hjob]
  exact h

theorem served_of_not_offers (hstub : ∀ job ∈ jobs, job.classStub = stub)
    (h : ¬Offers site s tree stub) : served site s tree jobs = [] := by
  refine List.filter_eq_nil_iff.mpr fun job hjob => ?_
  rw [finds_repository, hstub job hjob]
  exact h

/-- Jobs of one kind make different files exactly when their paths differ, if they make any. -/
theorem made_paths_nodup_iff (hstub : ∀ job ∈ jobs, job.classStub = stub) :
    ((served site s tree jobs).map (path s)).Nodup ↔
      (Offers site s tree stub → (jobs.map (path s)).Nodup) := by
  by_cases h : Offers site s tree stub
  · rw [served_of_offers hstub h]
    exact ⟨fun hn _ => hn, fun hn => hn h⟩
  · rw [served_of_not_offers hstub h]
    exact ⟨fun _ ho => absurd ho h, fun _ => List.nodup_nil⟩

theorem controllerJobs_nodup_iff :
    ((served site s tree (controllerJobs schema s)).map (path s)).Nodup ↔
      (s.generateControllers = true → Offers site s tree ControllerFile.classStub →
        ((controllers schema s).map (ControllerFile.path s)).Nodup) := by
  have hstub : ∀ job ∈ controllerJobs schema s, job.classStub = ControllerFile.classStub := by
    intro job hjob
    obtain ⟨-, c, -, rfl⟩ := mem_controllerJobs.mp hjob
    rfl
  rw [made_paths_nodup_iff hstub]
  cases hg : s.generateControllers with
  | false => simp [controllerJobs, hg]
  | true =>
    simp only [controllerJobs, hg, if_true, List.map_map, true_implies]
    rfl

theorem dataJobs_nodup_iff :
    ((served site s tree (dataJobs schema s)).map (path s)).Nodup ↔
      (s.generateData = true → Offers site s tree DataFile.classStub →
        (schema.entities.map fun e => dataClass e.name).Nodup) := by
  have hstub : ∀ job ∈ dataJobs schema s, job.classStub = DataFile.classStub := by
    intro job hjob
    obtain ⟨-, e, -, rfl⟩ := mem_dataJobs.mp hjob
    rfl
  rw [made_paths_nodup_iff hstub]
  cases hg : s.generateData with
  | false => simp [dataJobs, hg]
  | true =>
    have hpath (e f : Entity) : path s (data e) = path s (data f) ↔
        dataClass e.name = dataClass f.name := DataFile.path_eq_iff s e f
    simp only [dataJobs, hg, if_true, List.map_map, List.Nodup, List.pairwise_map, ne_eq,
      Function.comp_apply, hpath, true_implies]

theorem controllerJobs_path_ne_dataJobs_path {c d : Job} (hc : c ∈ controllerJobs schema s)
    (hd : d ∈ dataJobs schema s) : path s c ≠ path s d := by
  obtain ⟨-, c, -, rfl⟩ := mem_controllerJobs.mp hc
  obtain ⟨-, e, -, rfl⟩ := mem_dataJobs.mp hd
  exact controllerPath_ne_dataPath s c e

/-- The files of a valid schema have different paths exactly when its controllers are apart and
no two of its entities have one data class, as far as such files are generated. -/
theorem render_paths_nodup_iff {found : Report} {arts : List Artifact}
    (hfull : Check.full tree site.cwd schema s = .ok found) (hvalid : found.isValid = true)
    (hrender : renderSchema site tree schema s = .ok arts) :
    (arts.map (·.path)).Nodup ↔
      (s.generateControllers = true → Offers site s tree ControllerFile.classStub →
        ControllersApart schema s) ∧
      (s.generateData = true → Offers site s tree DataFile.classStub →
        (schema.entities.map fun e => dataClass e.name).Nodup) := by
  have hapart := controllersApart_iff (s := s) (Check.controllers_distinct hfull hvalid)
  rw [renderSchema_paths hrender, all_eq, served_append, List.map_append,
    List.nodup_append, controllerJobs_nodup_iff, dataJobs_nodup_iff, hapart]
  constructor
  · exact fun h => ⟨h.1, h.2.1⟩
  · refine fun h => ⟨h.1, h.2, fun p hp q hq => ?_⟩
    obtain ⟨c, hc, rfl⟩ := List.mem_map.mp hp
    obtain ⟨d, hd, rfl⟩ := List.mem_map.mp hq
    exact controllerJobs_path_ne_dataJobs_path (mem_served.mp hc).1 (mem_served.mp hd).1

/-- Two models of one generation whose names differ in number only. -/
def singularAndPlural : Schema :=
  { entities := [{ name := "Post", columns := [{ name := "title" }] },
      { name := "Posts", columns := [{ name := "body", dataType := "text" }] }] }

theorem singularAndPlural_share_path :
    ∃ found arts, Check.full plainTree plainSite.cwd singularAndPlural {} = .ok found ∧
      found.isValid = true ∧ renderSchema plainSite plainTree singularAndPlural {} = .ok arts ∧
      ¬(arts.map (·.path)).Nodup :=
  ⟨_, _, rfl, by decide +kernel, rfl, by decide +kernel⟩

theorem exists_servedAndUnserved_findings :
    ∃ found, Check.full plainTree plainSite.cwd servedAndUnserved everyModel = .ok found ∧
      found.isValid = true :=
  ⟨_, rfl, by decide +kernel⟩

theorem servedAndUnserved_paths_nodup_iff :
    ∃ found arts, Check.full plainTree plainSite.cwd servedAndUnserved everyModel = .ok found ∧
      found.isValid = true ∧
      renderSchema plainSite plainTree servedAndUnserved everyModel = .ok arts ∧
      ((arts.map (·.path)).Nodup ↔
        (everyModel.generateControllers = true →
          Offers plainSite everyModel plainTree ControllerFile.classStub →
          ControllersApart servedAndUnserved everyModel) ∧
        (everyModel.generateData = true →
          Offers plainSite everyModel plainTree DataFile.classStub →
          (servedAndUnserved.entities.map fun e => dataClass e.name).Nodup)) := by
  obtain ⟨found, hfull, hvalid⟩ := exists_servedAndUnserved_findings
  obtain ⟨arts, hrender⟩ : ∃ arts, renderSchema plainSite plainTree servedAndUnserved
      everyModel = .ok arts := ⟨_, rfl⟩
  exact ⟨found, arts, hfull, hvalid, hrender, render_paths_nodup_iff hfull hvalid hrender⟩

end

end Job

end ApiScaffold
