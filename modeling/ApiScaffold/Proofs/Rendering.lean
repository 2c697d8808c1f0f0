import ApiScaffold.Generation.Job
import ApiScaffold.Proofs.Results

/-!
# Rendering without a memory

A repository remembers what it found, and a generation hands it on from job to job. As long as
it remembers only what some fixed lookup gives, and reads the same for names that it has not
looked up yet, each job comes to the outcome that the lookup alone decides: the memory then
cannot be observed. The lookup need not read the files as they are now, so the same lemmas
serve a rendering among unchanging files and one whose files were written in between. Reading
them as they are now may also fail where the lookup does not, with one of the errors that are
excused; among unchanging files none is.

The order of errors is kept too: the first job that fails decides the failure.
-/
namespace ApiScaffold

open Text

/-- What looking a stub up by its name comes to. -/
abbrev Lookup := Text → Except Stub.ReadError (Option Text)

namespace Stub.Repository

/-- Only the directories of a repository decide what it reads. -/
theorem read_congr_directories {r r' : Repository} (h : r.directories = r'.directories)
    (tree : Tree) (cwd : Path) (name : Text) : r.read tree cwd name = r'.read tree cwd name := by
  simp only [read, locate, h]

theorem missingMessage_congr {r r' : Repository} (h : r.directories = r'.directories)
    (name : Text) : r.missingMessage name = r'.missingMessage name := by
  unfold missingMessage searched
  rw [h]

/-- The repository answers as the lookup does, whether it remembers a name or reads it, unless
reading fails with an excused error. -/
structure Follows (r : Repository) (look : Lookup) (names : Text → Prop)
    (excused : ReadError → Prop) (tree : Tree) (cwd : Path) : Prop where
  remembered : ∀ entry ∈ r.found, look entry.1 = .ok entry.2
  reads : ∀ name, names name →
    r.read tree cwd name = look name ∨ ∃ e, excused e ∧ r.read tree cwd name = .error e

theorem follows_self (directories : List Path) (names : Text → Prop) (tree : Tree)
    (cwd : Path) :
    Follows { directories } (Repository.read { directories } tree cwd) names
      (fun _ => False) tree cwd :=
  ⟨by simp, fun _ _ => Or.inl rfl⟩

variable {r : Repository} {look : Lookup} {names : Text → Prop} {excused : ReadError → Prop}
  {tree : Tree} {cwd : Path}

/-- A search gives what the lookup gives and leaves a repository that still follows it. -/
theorem Follows.find (h : r.Follows look names excused tree cwd) {name : Text}
    (hname : names name) :
    (∃ e, r.find tree cwd name = .error e ∧ (look name = .error e ∨ excused e)) ∨
      ∃ text r', look name = .ok text ∧ r.find tree cwd name = .ok (text, r') ∧
        r'.directories = r.directories ∧ r'.Follows look names excused tree cwd := by
  unfold Repository.find
  cases hf : r.found.find? fun entry => entry.1 = name with
  | some entry =>
    have heq : entry.1 = name := by simpa using List.find?_some hf
    have hlook := h.remembered entry (List.mem_of_find?_eq_some hf)
    exact Or.inr ⟨entry.2, r, heq ▸ hlook, rfl, rfl, h⟩
  | none =>
    rcases h.reads name hname with hread | ⟨e, he, hread⟩
    · cases hl : look name with
      | error e =>
        rw [hl] at hread
        exact Or.inl ⟨e, by simp only [hread], Or.inl rfl⟩
      | ok text =>
        rw [hl] at hread
        refine Or.inr ⟨text, { r with found := r.found ++ [(name, text)] }, rfl,
          by simp only [hread], rfl, ?_, ?_⟩
        · intro entry hentry
          rcases List.mem_append.mp hentry with hentry | hentry
          · exact h.remembered entry hentry
          · rw [List.mem_singleton.mp hentry]
            exact hl
        · exact fun other hother => h.reads other hother
    · exact Or.inl ⟨e, by simp only [hread], Or.inr he⟩

end Stub.Repository

namespace Job

/-- The path of the file that a job makes. -/
def path (s : Settings) : Job → Text
  | controller c _ => ControllerFile.path s c
  | data e => DataFile.path s e

/-- The names of the stubs that a job may look up. -/
def stubNames (s : Settings) : Job → List Text
  | controller c _ =>
    ControllerFile.classStub ::
      (ControllerFile.writtenVerbs s c).map ControllerFile.methodStub
  | data _ => [DataFile.classStub]

theorem classStub_mem_stubNames (s : Settings) (job : Job) :
    job.classStub ∈ job.stubNames s := by
  cases job <;> exact List.mem_cons_self

/-- The methods of a controller by a lookup. -/
def methodTexts (look : Lookup) (s : Settings) (now : Moment) (c : Controller)
    (e : Option Entity) : List Text → Except Failure (List (Text × Text))
  | [] => .ok []
  | verb :: rest =>
    match look (ControllerFile.methodStub verb) with
    | .error err => .error (.ofRead err)
    | .ok none => methodTexts look s now c e rest
    | .ok (some stub) =>
      match ControllerFile.methodText s now c e verb stub with
      | .error m => .error (.misuse m)
      | .ok text => (methodTexts look s now c e rest).map fun more => (verb, text) :: more

/-- The file of a job by a lookup, from its class stub. -/
def fileFrom (look : Lookup) (s : Settings) (now : Moment) (stub : Text) :
    Job → Except Failure Artifact
  | controller c e =>
    (methodTexts look s now c e (ControllerFile.writtenVerbs s c)).map
      (ControllerFile.artifact s c e stub)
  | data e => (DataFile.artifact s e stub).mapError .misuse

/-- What a job comes to by a lookup. -/
def outcome (look : Lookup) (s : Settings) (now : Moment) (job : Job) : Except Failure Outcome :=
  match look job.classStub with
  | .error err => .error (.ofRead err)
  | .ok none => .ok (.lacking job.classStub)
  | .ok (some stub) => (job.fileFrom look s now stub).map .made

/-- What jobs come to, up to the first failure. -/
def outcomes (look : Lookup) (s : Settings) (now : Moment) :
    List Job → Except Failure (List Outcome)
  | [] => .ok []
  | job :: rest =>
    match job.outcome look s now with
    | .error f => .error f
    | .ok o => (outcomes look s now rest).map (o :: ·)

def Outcome.file? : Outcome → Option Artifact
  | made a => some a
  | lacking _ => none

@[simp] theorem Outcome.file?_made (a : Artifact) : (made a).file? = some a := rfl

@[simp] theorem Outcome.file?_lacking (stub : Text) : (lacking stub).file? = none := rfl

/-- The lookup among files that do not change. -/
def lookup (site : Site) (s : Settings) (tree : Tree) : Lookup :=
  (repository site s).read tree site.cwd

section
variable {look : Lookup} {s : Settings} {site : Site} {tree : Tree} {names : Text → Prop}
  {excused : Stub.ReadError → Prop}

theorem methods_eq {c : Controller} {e : Option Entity} {verbs : List Text}
    {stubs : Stub.Repository} (h : stubs.Follows look names excused tree site.cwd)
    (hnames : ∀ verb ∈ verbs, names (ControllerFile.methodStub verb)) :
    (∃ f, methods site s tree c e verbs stubs = .error f ∧
        (methodTexts look s site.now c e verbs = .error f ∨
          ∃ err, excused err ∧ f = .ofRead err)) ∨
      ∃ texts stubs', methodTexts look s site.now c e verbs = .ok texts ∧
        methods site s tree c e verbs stubs = .ok (texts, stubs') ∧
        stubs'.directories = stubs.directories ∧
        stubs'.Follows look names excused tree site.cwd := by
  induction verbs generalizing stubs with
  | nil => exact Or.inr ⟨[], stubs, rfl, rfl, rfl, h⟩
  | cons verb rest ih =>
    have hrest := fun v hv => hnames v (List.mem_cons_of_mem verb hv)
    simp only [methodTexts, methods]
    rcases h.find (hnames verb List.mem_cons_self) with
      ⟨err, hf, hl⟩ | ⟨text, stubs₁, hl, hf, hd₁, h₁⟩
    · refine Or.inl ⟨.ofRead err, by rw [hf], hl.imp (fun hl => by rw [hl]) fun he => ?_⟩
      exact ⟨err, he, rfl⟩
    rw [hl, hf]
    cases text with
    | none =>
      rcases ih h₁ hrest with ⟨f, hm, ho⟩ | ⟨texts, stubs₂, ho, hm, hd₂, h₂⟩
      · exact Or.inl ⟨f, hm, ho⟩
      · exact Or.inr ⟨texts, stubs₂, ho, hm, hd₂.trans hd₁, h₂⟩
    | some stub =>
      cases ht : ControllerFile.methodText s site.now c e verb stub with
      | error m => exact Or.inl ⟨.misuse m, by simp only [ht], by simp only [ht, true_or]⟩
      | ok text =>
        rcases ih h₁ hrest with ⟨f, hm, ho⟩ | ⟨texts, stubs₂, ho, hm, hd₂, h₂⟩
        · refine Or.inl ⟨f, by simp only [ht, hm]; rfl, ho.imp (fun ho => ?_) id⟩
          simp only [ht, ho]
          rfl
        · exact Or.inr ⟨(verb, text) :: texts, stubs₂, by simp only [ht, ho]; rfl,
            by simp only [ht, hm]; rfl, hd₂.trans hd₁, h₂⟩

/-- A job whose stubs follow a lookup comes to the outcome of the lookup. -/
theorem render_eq {job : Job} {stubs : Stub.Repository}
    (h : stubs.Follows look names excused tree site.cwd)
    (hnames : ∀ n ∈ job.stubNames s, names n) :
    (∃ f, job.render site s tree stubs = .error f ∧
        (job.outcome look s site.now = .error f ∨ ∃ err, excused err ∧ f = .ofRead err)) ∨
      ∃ o stubs', job.outcome look s site.now = .ok o ∧
        job.render site s tree stubs = .ok (o, stubs') ∧
        stubs'.directories = stubs.directories ∧
        stubs'.Follows look names excused tree site.cwd := by
  simp only [outcome, render]
  rcases h.find (hnames _ (job.classStub_mem_stubNames s)) with
    ⟨err, hf, hl⟩ | ⟨text, stubs₁, hl, hf, hd₁, h₁⟩
  · refine Or.inl ⟨.ofRead err, by rw [hf], hl.imp (fun hl => by rw [hl]) fun he => ?_⟩
    exact ⟨err, he, rfl⟩
  rw [hl, hf]
  cases text with
  | none => exact Or.inr ⟨.lacking job.classStub, stubs₁, rfl, rfl, hd₁, h₁⟩
  | some stub =>
    cases job with
    | data e =>
      simp only [fileFrom, fill]
      cases DataFile.artifact s e stub with
      | error m => exact Or.inl ⟨.misuse m, rfl, Or.inl rfl⟩
      | ok a => exact Or.inr ⟨.made a, stubs₁, rfl, rfl, hd₁, h₁⟩
    | controller c e =>
      have hverbs : ∀ verb ∈ ControllerFile.writtenVerbs s c,
          names (ControllerFile.methodStub verb) := fun verb hv =>
        hnames _ (List.mem_cons_of_mem _ (List.mem_map.mpr ⟨verb, hv, rfl⟩))
      simp only [fileFrom, fill]
      rcases methods_eq (s := s) (c := c) (e := e) h₁ hverbs with
        ⟨f, hm, ho⟩ | ⟨texts, stubs₂, ho, hm, hd₂, h₂⟩
      · refine Or.inl ⟨f, by rw [hm]; rfl, ho.imp (fun ho => ?_) id⟩
        rw [ho]
        rfl
      · exact Or.inr ⟨_, stubs₂, by rw [ho]; rfl, by rw [hm]; rfl, hd₂.trans hd₁, h₂⟩

/-- Jobs are rendered as the lookup decides when nothing is excused. -/
theorem renderAll_eq {jobs : List Job} {stubs : Stub.Repository}
    (h : stubs.Follows look names (fun _ => False) tree site.cwd)
    (hnames : ∀ job ∈ jobs, ∀ n ∈ job.stubNames s, names n) :
    renderAll site s tree jobs stubs =
      (outcomes look s site.now jobs).map (List.filterMap Outcome.file?) := by
  induction jobs generalizing stubs with
  | nil => rfl
  | cons job rest ih =>
    have hrest := fun j hj => hnames j (List.mem_cons_of_mem job hj)
    simp only [renderAll, outcomes]
    rcases render_eq h (hnames job List.mem_cons_self) with
      ⟨f, hr, ho⟩ | ⟨o, stubs', ho, hr, -, h'⟩
    · obtain ho | ⟨err, hno, -⟩ := ho
      · rw [ho, hr]
        rfl
      · exact hno.elim
    · rw [ho, hr]
      cases o with
      | lacking stub =>
        simp only [ih h' hrest]
        cases outcomes look s site.now rest <;> rfl
      | made a =>
        simp only [ih h' hrest]
        cases outcomes look s site.now rest <;> rfl

theorem outcomes_cons_ok {job : Job} {rest : List Job} {outs : List Outcome} :
    outcomes look s site.now (job :: rest) = .ok outs ↔
      ∃ o os, job.outcome look s site.now = .ok o ∧
        outcomes look s site.now rest = .ok os ∧ outs = o :: os := by
  rw [outcomes]
  cases job.outcome look s site.now with
  | error f => simp
  | ok o => cases outcomes look s site.now rest <;> simp [Except.map, eq_comm]

theorem outcomes_eq_ok_iff {jobs : List Job} {outs : List Outcome} :
    outcomes look s site.now jobs = .ok outs ↔
      List.Forall₂ (fun job o => job.outcome look s site.now = .ok o) jobs outs := by
  induction jobs generalizing outs with
  | nil => simp [outcomes, eq_comm]
  | cons job rest ih => simp only [outcomes_cons_ok, List.forall₂_cons_left_iff, ih]

theorem mem_of_outcomes {jobs : List Job} {outs : List Outcome}
    (h : outcomes look s site.now jobs = .ok outs) {job : Job} (hjob : job ∈ jobs) :
    ∃ o ∈ outs, job.outcome look s site.now = .ok o := by
  induction outcomes_eq_ok_iff.mp h with
  | nil => cases hjob
  | @cons first o rest outs hfirst hrest ih =>
    rcases List.mem_cons.mp hjob with rfl | hjob
    · exact ⟨o, List.mem_cons_self, hfirst⟩
    · obtain ⟨o', ho', hout⟩ := ih (outcomes_eq_ok_iff.mpr hrest) hjob
      exact ⟨o', List.mem_cons_of_mem o ho', hout⟩

/-- A controller that is made has its class stub and the texts of its methods. -/
theorem outcome_controller_made {now : Moment} {c : Controller} {e : Option Entity} {a : Artifact}
    (h : (controller c e).outcome look s now = .ok (.made a)) :
    ∃ stub methods, look ControllerFile.classStub = .ok (some stub) ∧
      methodTexts look s now c e (ControllerFile.writtenVerbs s c) = .ok methods ∧
      a = ControllerFile.artifact s c e stub methods := by
  unfold outcome at h
  split at h
  · cases h
  · cases h
  · rename_i stub hstub
    simp only [fileFrom] at h
    cases hm : methodTexts look s now c e (ControllerFile.writtenVerbs s c) with
    | error f =>
      rw [hm] at h
      cases h
    | ok methods =>
      rw [hm] at h
      cases h
      exact ⟨stub, methods, hstub, rfl, rfl⟩

/-- A data object that is made has its class stub and its properties. -/
theorem outcome_data_made {now : Moment} {e : Entity} {a : Artifact}
    (h : (data e).outcome look s now = .ok (.made a)) :
    ∃ stub properties, look DataFile.classStub = .ok (some stub) ∧
      DataFile.properties s e = .ok properties ∧ a = DataFile.fileOf s e stub properties := by
  unfold outcome at h
  split at h
  · cases h
  · cases h
  · rename_i stub hstub
    simp only [fileFrom, Except.map_eq_ok_iff, Except.mapError_eq_ok_iff, DataFile.artifact] at h
    obtain ⟨_, ⟨properties, hproperties, rfl⟩, hmade⟩ := h
    cases hmade
    exact ⟨stub, properties, hstub, hproperties, rfl⟩

/-- A job makes a file exactly when its class stub is found, and then at its own path. -/
theorem outcome_made {job : Job} {a : Artifact}
    (h : job.outcome look s site.now = .ok (.made a)) :
    a.path = job.path s ∧ ∃ stub, look job.classStub = .ok (some stub) := by
  cases job with
  | data e =>
    obtain ⟨stub, properties, hstub, -, rfl⟩ := outcome_data_made h
    exact ⟨rfl, stub, hstub⟩
  | controller c e =>
    obtain ⟨stub, methods, hstub, -, rfl⟩ := outcome_controller_made h
    exact ⟨rfl, stub, hstub⟩

theorem outcome_lacking {job : Job} {stub : Text}
    (h : job.outcome look s site.now = .ok (.lacking stub)) :
    stub = job.classStub ∧ look job.classStub = .ok none := by
  unfold outcome at h
  split at h
  · cases h
  · rename_i hl
    cases h
    exact ⟨rfl, hl⟩
  · rename_i stub hl
    cases hf : job.fileFrom look s site.now stub <;> rw [hf] at h <;> cases h

end

/-- Whether a stub of the given name is found among files that do not change. -/
def Offers (site : Site) (s : Settings) (tree : Tree) (name : Text) : Prop :=
  ∃ stub, lookup site s tree name = .ok (some stub)

theorem finds_repository (site : Site) (s : Settings) (tree : Tree) (job : Job) :
    job.finds site tree (repository site s) = true ↔ Offers site s tree job.classStub := by
  have hread : (repository site s).find tree site.cwd job.classStub =
      (lookup site s tree job.classStub).map fun text =>
        (text, { repository site s with found := [(job.classStub, text)] }) := by
    simp only [Stub.Repository.find, lookup, repository, List.find?_nil]
    cases Stub.Repository.read _ tree site.cwd job.classStub <;> rfl
  unfold finds Offers
  rw [hread]
  rcases lookup site s tree job.classStub with e | _ | text <;> simp [Except.map]

/-- The jobs that make files among files that do not change. -/
def served (site : Site) (s : Settings) (tree : Tree) (jobs : List Job) : List Job :=
  jobs.filter fun job => job.finds site tree (repository site s)

/-- The jobs that are skipped among files that do not change. -/
def skipped (site : Site) (s : Settings) (tree : Tree) (jobs : List Job) : List Job :=
  jobs.filter fun job => !job.finds site tree (repository site s)

theorem mem_served {site : Site} {s : Settings} {tree : Tree} {jobs : List Job} {job : Job} :
    job ∈ served site s tree jobs ↔
      job ∈ jobs ∧ job.finds site tree (repository site s) = true := List.mem_filter

theorem served_append (site : Site) (s : Settings) (tree : Tree) (jobs more : List Job) :
    served site s tree (jobs ++ more) = served site s tree jobs ++ served site s tree more :=
  List.filter_append jobs more

theorem finds_of_made {site : Site} {s : Settings} {tree : Tree} {job : Job} {a : Artifact}
    (h : job.outcome (lookup site s tree) s site.now = .ok (.made a)) :
    job.finds site tree (repository site s) = true :=
  (finds_repository site s tree job).mpr (outcome_made h).2

theorem finds_of_lacking {site : Site} {s : Settings} {tree : Tree} {job : Job} {stub : Text}
    (h : job.outcome (lookup site s tree) s site.now = .ok (.lacking stub)) :
    job.finds site tree (repository site s) = false := by
  have hno := (outcome_lacking h).2
  rw [← Bool.not_eq_true, finds_repository]
  rintro ⟨text, htext⟩
  rw [hno] at htext
  cases htext

/-- Among files that do not change, jobs make a file each when their class stub is found, at
the path of the job. -/
theorem outcomes_paths {site : Site} {s : Settings} {tree : Tree} {jobs : List Job}
    {outs : List Outcome} (h : outcomes (lookup site s tree) s site.now jobs = .ok outs) :
    (outs.filterMap Outcome.file?).map (·.path) = (served site s tree jobs).map (path s) := by
  unfold served
  induction outcomes_eq_ok_iff.mp h with
  | nil => rfl
  | @cons job o jobs outs hj hrest ih =>
    have htail := ih (outcomes_eq_ok_iff.mpr hrest)
    cases o with
    | made a =>
      rw [List.filterMap_cons_some (Outcome.file?_made a),
        List.filter_cons_of_pos (finds_of_made hj), List.map_cons, List.map_cons,
        (outcome_made hj).1, htail]
    | lacking stub =>
      have hfinds := finds_of_lacking hj
      rw [List.filterMap_cons_none (Outcome.file?_lacking stub),
        List.filter_cons_of_neg (by simp [hfinds]), htail]

theorem renderSchema_eq (site : Site) (tree : Tree) (schema : Schema) (s : Settings) :
    renderSchema site tree schema s =
      (outcomes (lookup site s tree) s site.now (all schema s)).map
        (List.filterMap Outcome.file?) :=
  renderAll_eq (Stub.Repository.follows_self _ (fun _ => True) tree site.cwd)
    fun _ _ _ _ => trivial

/-- The outcomes behind a rendered schema. -/
theorem renderSchema_ok {site : Site} {tree : Tree} {schema : Schema} {s : Settings}
    {arts : List Artifact} (h : renderSchema site tree schema s = .ok arts) :
    ∃ outs, outcomes (lookup site s tree) s site.now (all schema s) = .ok outs ∧
      arts = outs.filterMap Outcome.file? := by
  rw [renderSchema_eq] at h
  cases ho : outcomes (lookup site s tree) s site.now (all schema s) with
  | error f => rw [ho] at h; cases h
  | ok outs =>
    rw [ho] at h
    cases h
    exact ⟨outs, rfl, rfl⟩

theorem renderSchema_paths {site : Site} {tree : Tree} {schema : Schema} {s : Settings}
    {arts : List Artifact} (h : renderSchema site tree schema s = .ok arts) :
    arts.map (·.path) = (served site s tree (all schema s)).map (path s) := by
  obtain ⟨outs, ho, rfl⟩ := renderSchema_ok h
  exact outcomes_paths ho

/-- The entities that are to have a controller and have no declared one. -/
def unserved (schema : Schema) (s : Settings) : List Entity :=
  if s.controllersForAllModels then
    schema.entities.filter fun e =>
      !((declared schema s).map Controller.modelName).contains e.name
  else []

theorem controllers_eq (schema : Schema) (s : Settings) :
    controllers schema s = declared schema s ++ (unserved schema s).map (scaffold s) := by
  unfold controllers unserved
  split_ifs <;> rfl

/-- The jobs of a generation that write controllers. -/
def controllerJobs (schema : Schema) (s : Settings) : List Job :=
  if s.generateControllers then
    (controllers schema s).map fun c => controller c (schema.entity? c.modelName)
  else []

/-- The jobs of a generation that write data objects. -/
def dataJobs (schema : Schema) (s : Settings) : List Job :=
  if s.generateData then schema.entities.map data else []

theorem all_eq (schema : Schema) (s : Settings) :
    all schema s = controllerJobs schema s ++ dataJobs schema s := rfl

theorem mem_controllerJobs {schema : Schema} {s : Settings} {job : Job} :
    job ∈ controllerJobs schema s ↔ s.generateControllers = true ∧
      ∃ c ∈ controllers schema s, job = controller c (schema.entity? c.modelName) := by
  unfold controllerJobs
  split_ifs with h <;> simp [h, eq_comm]

theorem mem_dataJobs {schema : Schema} {s : Settings} {job : Job} :
    job ∈ dataJobs schema s ↔
      s.generateData = true ∧ ∃ e ∈ schema.entities, job = data e := by
  unfold dataJobs
  split_ifs with h <;> simp [h, eq_comm]

end Job

/-- A place with its packaged stubs below the root. -/
def plainSite : Site :=
  { cwd := ⟨"/", []⟩
    packaged := ⟨"/", ["stubs"]⟩
    now := { date := ⟨2025, 1, 2⟩, hour := 3, minute := 4, second := 5, microsecond := 6 } }

/-- Files with class stubs and no others. -/
def plainTree : Tree :=
  ⟨[(["stubs"], .directory), (["stubs", DataFile.classStub], .file []),
    (["stubs", ControllerFile.classStub], .file [])]⟩

/-- A declared controller beside models, one of which gets a controller of its own. -/
def servedAndUnserved : Schema :=
  { entities := [{ name := "Post" }, { name := "Comment" }]
    controllers := [{ name := "Admin/Post", space := "Api\\Admin" }] }

/-- The settings by which every model gets a controller. -/
def everyModel : Settings := { controllersForAllModels := true }

end ApiScaffold
