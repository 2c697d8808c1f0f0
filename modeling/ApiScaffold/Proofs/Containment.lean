import ApiScaffold.Draft.Document
import ApiScaffold.Proofs.Collisions
import ApiScaffold.Proofs.PathNames
import Mathlib.Data.Fintype.EquivFin

/-!
# Files below the output directory

The output directory is absolute and the paths of files are relative to it, so the files should
be below it. Two things can lead out: a path of the application that is nothing but slashes makes
the paths of files absolute, and the double dots of a namespace, which no check looks at, may go
up further than the directories before them go down. There is no third one as long as the path
of the application has no double dots itself. Links are not followed here; double dots are taken
away with the names before them.
-/
namespace ApiScaffold

open Text

theorem Path.collapse_eq_reached (parts : List Text) : collapse parts = Tree.reached [] parts := by
  have hfold (done : List Text) : (parts.foldl (fun done part =>
      if part = (".." : Text) then done.drop 1 else part :: done) done).reverse =
        Tree.reached done.reverse parts := by
    induction parts generalizing done with
    | nil => rfl
    | cons part rest ih =>
      rw [List.foldl_cons, ih, Tree.reached_cons]
      by_cases hup : part = (".." : Text)
      · rw [if_pos hup, hup, Tree.next_up, List.drop_one, List.dropLast_reverse]
      · rw [if_neg hup, Tree.next_of_ne hup, List.reverse_cons]
  exact hfold []

/-- The path means something strictly below what the directory means. -/
def Path.Below (directory p : Path) : Prop :=
  collapse directory.parts <+: collapse p.parts ∧ collapse p.parts ≠ collapse directory.parts

instance (directory p : Path) : Decidable (p.Below directory) := instDecidableAnd

namespace Tree

/-- Going through names from some depth never goes up from depth zero. -/
def staysWithin : Nat → List Text → Bool
  | _, [] => true
  | depth, part :: rest =>
    if part = (".." : Text) then 0 < depth && staysWithin (depth - 1) rest
    else staysWithin (depth + 1) rest

theorem not_mem_reached {here : Location} {parts : List Text} {name : Text} (hhere : name ∉ here)
    (hparts : name ∉ parts) : name ∉ reached here parts := by
  induction parts generalizing here with
  | nil => exact hhere
  | cons part rest ih =>
    rw [List.mem_cons, not_or] at hparts
    refine ih ?_ hparts.2
    unfold next
    split_ifs
    · exact fun hmem => hhere (List.dropLast_subset here hmem)
    · simpa using ⟨hhere, hparts.1⟩

/-- Names that stay within a location below a base lead to a location below the base. -/
theorem reached_of_staysWithin {base own : Location} {parts : List Text}
    (h : staysWithin own.length parts = true) :
    ∃ own', reached (base ++ own) parts = base ++ own' := by
  induction parts generalizing own with
  | nil => exact ⟨own, rfl⟩
  | cons part rest ih =>
    rw [reached_cons]
    by_cases hup : part = (".." : Text)
    · rw [staysWithin, if_pos hup] at h
      rcases List.eq_nil_or_concat own with rfl | ⟨front, last, rfl⟩
      · cases h
      · rw [List.concat_eq_append] at h ⊢
        rw [hup, next_up, ← List.append_assoc, List.dropLast_concat]
        exact ih (by simpa using h)
    · rw [staysWithin, if_neg hup] at h
      rw [next_of_ne hup, List.append_assoc]
      exact ih (by rwa [List.length_append])

/-- Names that do not stay within a location leave the base, and do not come back when its name
is none of them. -/
theorem not_mem_reached_of_not_staysWithin {own : Location} {parts : List Text} {base : Text}
    (h : staysWithin own.length parts = false) (hown : base ∉ own) (hparts : base ∉ parts) :
    base ∉ reached (base :: own) parts := by
  induction parts generalizing own with
  | nil => cases h
  | cons part rest ih =>
    rw [List.mem_cons, not_or] at hparts
    rw [reached_cons]
    by_cases hup : part = (".." : Text)
    · rw [staysWithin, if_pos hup] at h
      rw [hup, next_up]
      rcases List.eq_nil_or_concat own with rfl | ⟨front, last, rfl⟩
      · exact not_mem_reached (List.not_mem_nil) hparts.2
      · rw [List.concat_eq_append] at h hown ⊢
        rw [← List.cons_append, List.dropLast_concat]
        exact ih (by simpa using h) (fun hmem => hown (List.mem_append_left _ hmem)) hparts.2
    · rw [staysWithin, if_neg hup] at h
      rw [next_of_ne hup, List.cons_append]
      refine ih (by rwa [List.length_append]) ?_ hparts.2
      simpa using ⟨hown, hparts.1⟩

end Tree

namespace Path

variable {directory q : Path} {own names : List Text} {last : Text}

/-- A relative path leads below the directory if it goes down by its own names first and its
other names, the last one apart, stay within them. -/
theorem below_of_staysWithin (hq : q.isAbsolute = false)
    (hparts : q.parts = own ++ (names ++ [last])) (hown : (".." : Text) ∉ own)
    (hlast : last ≠ (".." : Text)) (hstays : Tree.staysWithin own.length names = true) :
    directory.Below (directory.append q) := by
  obtain ⟨own', hreached⟩ : ∃ own', Tree.reached (collapse directory.parts ++ own) names =
      collapse directory.parts ++ own' := Tree.reached_of_staysWithin hstays
  have hplace : collapse (directory.append q).parts =
      collapse directory.parts ++ (own' ++ [last]) := by
    rw [collapse_eq_reached directory.parts] at hreached ⊢
    rw [append, if_neg (by simp [hq]), collapse_eq_reached, hparts, Tree.reached_append,
      Tree.reached_append, Tree.reached_eq_append hown, Tree.reached_append, hreached,
      Tree.reached_cons, Tree.reached_nil, Tree.next_of_ne hlast, List.append_assoc]
  rw [Below, hplace]
  exact ⟨List.prefix_append _ _, by simp⟩

/-- A relative path whose names go up too far leads out of a directory with another name. -/
theorem not_below_of_not_staysWithin {name : Text} (hparts : q.parts = own ++ (names ++ [last]))
    (hown : (".." : Text) ∉ own) (hstays : Tree.staysWithin own.length names = false)
    (hname : name ∉ q.parts) (hup : name ≠ (".." : Text)) :
    ¬Below ⟨"/", [name]⟩ (append ⟨"/", [name]⟩ q) := by
  rw [hparts, List.mem_append, List.mem_append, not_or, not_or] at hname
  intro hbelow
  have hbase : collapse [name] = [name] := by
    rw [collapse_eq_reached, Tree.reached_cons, Tree.reached_nil, Tree.next_of_ne hup,
      List.nil_append]
  have hmem : name ∈ collapse (append ⟨"/", [name]⟩ q).parts :=
    hbelow.1.subset (by rw [hbase]; exact List.mem_cons_self)
  refine absurd hmem ?_
  rw [collapse_eq_reached, append]
  split_ifs
  · refine Tree.not_mem_reached List.not_mem_nil ?_
    rw [hparts]
    simp [hname]
  · rw [Tree.reached_append, Tree.reached_cons, Tree.reached_nil, Tree.next_of_ne hup,
      List.nil_append, hparts, Tree.reached_append, Tree.reached_eq_append hown,
      Tree.reached_append]
    refine Tree.not_mem_reached ?_ hname.2.2
    exact Tree.not_mem_reached_of_not_staysWithin hstays hname.1 hname.2.1

end Path

namespace Job

variable {site : Site} {tree : Tree} {schema : Schema} {s : Settings} {job : Job}

/-- A file is below every output directory exactly when its path is relative and the names of its
directories stay within those of the application. -/
theorem below_iff (hup : (".." : Text) ∉ (Path.ofText s.appPath).parts) :
    (∀ cwd output, Path.Below (Path.resolve cwd output) (job.target (Path.resolve cwd output) s)) ↔
      stripChar '/' s.appPath ≠ [] ∧
        Tree.staysWithin (Path.ofText s.appPath).parts.length job.folderNames = true := by
  have hparts := job.path_parts s
  constructor
  · intro h
    obtain ⟨name, hname⟩ :=
      Infinite.exists_notMem_finset ((".." : Text) :: (Path.ofText (job.path s)).parts).toFinset
    rw [List.mem_toFinset, List.mem_cons, not_or] at hname
    have hresolve : Path.resolve ⟨"/", []⟩ ⟨"/", [name]⟩ = ⟨"/", [name]⟩ := by
      refine congrArg (Path.mk _) ?_
      rw [Path.collapse_eq_reached]
      exact Tree.next_of_ne hname.1 []
    have hbelow := h ⟨"/", []⟩ ⟨"/", [name]⟩
    rw [hresolve] at hbelow
    constructor
    · -- The file would not depend on the output directory.
      intro hroot
      have hplace : (job.target ⟨"/", [name]⟩ s) = Path.ofText (job.path s) :=
        if_pos ((path_isAbsolute s job).mpr hroot)
      have hmem : name ∈ Path.collapse (Path.ofText (job.path s)).parts := by
        rw [← hplace]
        refine hbelow.1.subset ?_
        rw [Path.collapse_eq_reached, Tree.reached_cons, Tree.next_of_ne hname.1]
        exact List.mem_cons_self
      rw [Path.collapse_eq_reached] at hmem
      exact Tree.not_mem_reached List.not_mem_nil hname.2 hmem
    · by_contra hstays
      exact Path.not_below_of_not_staysWithin hparts hup (Bool.not_eq_true _ ▸ hstays) hname.2
        hname.1 hbelow
  · rintro ⟨hroot, hstays⟩ cwd output
    have hrelative : (Path.ofText (job.path s)).isAbsolute = false := by
      rw [← Bool.not_eq_true, path_isAbsolute]
      exact hroot
    exact Path.below_of_staysWithin hrelative hparts hup job.fileName_ne_up hstays

/-- What holds of the paths of all files holds of the paths of the jobs that make them. -/
theorem forall_path_iff {arts : List Artifact} (P : Text → Prop)
    (hrender : renderSchema site tree schema s = .ok arts) :
    (∀ a ∈ arts, P a.path) ↔ ∀ job ∈ served site s tree (all schema s), P (job.path s) := by
  have hmap := List.forall_mem_map (f := fun a : Artifact => a.path) (l := arts) (P := P)
  rw [← hmap, renderSchema_paths hrender, List.forall_mem_map]

/-- The files of a schema are below every output directory exactly when the path of the
application, if there is a file, is more than slashes and the namespace of no generated
controller goes up further than the directories of all controllers and of the application go
down. Data objects never leave it by themselves. -/
theorem rendered_below_iff {arts : List Artifact}
    (hrender : renderSchema site tree schema s = .ok arts)
    (hup : (".." : Text) ∉ (Path.ofText s.appPath).parts) (atomic dryRun : Bool) :
    (∀ cwd output, ∀ a ∈ arts, Path.Below (Path.resolve cwd output)
        ((Emitter.start (Path.resolve cwd output) atomic dryRun).target a.path)) ↔
      (arts ≠ [] → stripChar '/' s.appPath ≠ []) ∧
      (s.generateControllers = true → Offers site s tree ControllerFile.classStub →
        ∀ c ∈ controllers schema s, Tree.staysWithin
          ((Path.ofText s.appPath).parts.length + 2) (ClassNames.spaceNames c.space) = true) := by
  have hjobs : (∀ cwd output, ∀ a ∈ arts, Path.Below (Path.resolve cwd output)
        ((Emitter.start (Path.resolve cwd output) atomic dryRun).target a.path)) ↔
      ∀ job ∈ served site s tree (all schema s), stripChar '/' s.appPath ≠ [] ∧
        Tree.staysWithin (Path.ofText s.appPath).parts.length job.folderNames = true := by
    simp only [← below_iff hup]
    have hpath (cwd output : Path) := forall_path_iff (fun path => Path.Below
      (Path.resolve cwd output) ((Path.resolve cwd output).append (.ofText path))) hrender
    exact ⟨fun h job hjob cwd output => (hpath cwd output).mp (h cwd output) job hjob,
      fun h cwd output => (hpath cwd output).mpr fun job hjob => h job hjob cwd output⟩
  have hsome : arts ≠ [] ↔ served site s tree (all schema s) ≠ [] := by
    rw [Ne, ← List.map_eq_nil_iff (f := fun a : Artifact => a.path), renderSchema_paths hrender,
      List.map_eq_nil_iff]
  rw [hjobs, hsome]
  constructor
  · intro h
    refine ⟨fun hne => ?_, fun hgenerate hoffers c hc => ?_⟩
    · obtain ⟨job, hjob⟩ := List.exists_mem_of_ne_nil _ hne
      exact (h job hjob).1
    · have hjob : controller c (schema.entity? c.modelName) ∈ all schema s := by
        rw [all_eq]
        exact List.mem_append_left _ (mem_controllerJobs.mpr ⟨hgenerate, c, hc, rfl⟩)
      exact (h _ (mem_served.mpr ⟨hjob, (finds_repository site s tree _).mpr hoffers⟩)).2
  · rintro ⟨hroot, hcontrollers⟩ job hjob
    refine ⟨hroot (List.ne_nil_of_mem hjob), ?_⟩
    obtain ⟨hall, hfinds⟩ := mem_served.mp hjob
    rw [all_eq] at hall
    rcases List.mem_append.mp hall with hall | hall
    · obtain ⟨hgenerate, c, hc, rfl⟩ := mem_controllerJobs.mp hall
      exact hcontrollers hgenerate ((finds_repository site s tree _).mp hfinds) c hc
    · obtain ⟨-, e, -, rfl⟩ := mem_dataJobs.mp hall
      rfl

theorem servedAndUnserved_below :
    ∃ arts, renderSchema plainSite plainTree servedAndUnserved everyModel = .ok arts ∧
      (".." : Text) ∉ (Path.ofText everyModel.appPath).parts ∧
      ∀ cwd output, ∀ a ∈ arts, Path.Below (Path.resolve cwd output)
        ((Emitter.start (Path.resolve cwd output) true false).target a.path) := by
  obtain ⟨arts, hrender⟩ : ∃ arts, renderSchema plainSite plainTree servedAndUnserved
      everyModel = .ok arts := ⟨_, rfl⟩
  have hup : (".." : Text) ∉ (Path.ofText everyModel.appPath).parts := by decide +kernel
  refine ⟨arts, hrender, hup, (rendered_below_iff hrender hup true false).mpr
    ⟨fun _ => by decide +kernel, fun _ _ => by decide +kernel⟩⟩

/-- Controllers of a draft, one of them in a namespace that goes up. -/
def climbingControllers : Mapping :=
  [(.text "Api/../../../../../Post", .mapping [(.text "index", .text "x")])]

def climbing : Mapping := [(.text "controllers", .mapping climbingControllers)]

/-- The schema of the draft. -/
def climbingSchema : Schema :=
  { controllers := [{ name := "Post", space := "Api\\..\\..\\..\\..\\..", methods := ["index"] }] }

theorem climbing_parsed : Draft.parse climbing .null none = .ok (climbingSchema, {}) := by
  have hconfiguration : Draft.configuration climbing .null = .ok {} := rfl
  have hmodels : Draft.sectionPairs climbing "models" .modelsForm = .ok [] := rfl
  have hsection : Draft.sectionPairs climbing "controllers" .controllersForm =
      .ok climbingControllers := rfl
  have hcontrollers : Draft.controllers ({} : Settings).defaultControllerMethods
      climbingControllers = .ok climbingSchema.controllers := rfl
  have hdistinct : Schema.distinctEntities ⟨[], climbingSchema.controllers, none⟩ =
      .ok climbingSchema := by
    simp [Schema.distinctEntities, climbingSchema, Schema.entityNames, repeated, sort, distinct]
  simp only [Draft.parse, hconfiguration, hmodels, hsection, hcontrollers, hdistinct, Draft.models,
    bind, Except.bind]

/-- The checks have nothing against the namespace, and the file is not below the output
directory. -/
theorem climbing_leaves_output :
    ∃ schema config found arts, Draft.parse climbing .null none = .ok (schema, config) ∧
      (".." : Text) ∉ (Path.ofText config.settings.appPath).parts ∧
      Check.full plainTree plainSite.cwd schema config.settings = .ok found ∧
      found.isValid = true ∧
      renderSchema plainSite plainTree schema config.settings = .ok arts ∧
      ∃ a ∈ arts, ¬Path.Below (Path.resolve plainSite.cwd ⟨"", ["out"]⟩)
        ((Emitter.start (Path.resolve plainSite.cwd ⟨"", ["out"]⟩) true false).target a.path) := by
  obtain ⟨found, hfull, hvalid⟩ : ∃ found, Check.full plainTree plainSite.cwd climbingSchema
      {} = .ok found ∧ found.isValid = true := ⟨_, rfl, by decide +kernel⟩
  obtain ⟨a, hrender, hout⟩ : ∃ a, renderSchema plainSite plainTree climbingSchema {} = .ok [a] ∧
      ¬Path.Below (Path.resolve plainSite.cwd ⟨"", ["out"]⟩)
        ((Emitter.start (Path.resolve plainSite.cwd ⟨"", ["out"]⟩) true false).target a.path) :=
    ⟨_, rfl, by decide +kernel⟩
  exact ⟨climbingSchema, {}, found, [a], climbing_parsed, by decide +kernel, hfull, hvalid, hrender,
    a, List.mem_cons_self, hout⟩

end Job

end ApiScaffold
