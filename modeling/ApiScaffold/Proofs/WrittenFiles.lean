import ApiScaffold.Proofs.Refinement

/-!
# Files that a generation leaves behind

A file that was stored is found again by its path, and storing other files does not take it away:
a file that is in the way of another one keeps that one from being stored. So after a generation
that reports success, the file of every job is there, whatever it was rendered from. Nothing is
asked of the stubs or of the tree at the start.
-/
namespace ApiScaffold

open Text

namespace Tree

variable {t t' t₁ : Tree} {p q : Path}

/-- A walk depends on the directories that it passes and on nothing else. -/
theorem walk_of_directories {here loc : Location} {parts : List Text}
    (h : t.walk here parts = .ok loc)
    (hdirs : ∀ l ∈ passed here parts, t'.find? l = some .directory) :
    t'.walk here parts = .ok loc := by
  induction parts generalizing here with
  | nil => rwa [walk_nil] at h ⊢
  | cons part rest ih =>
    have hpassed := (walk_ok h).2
    rw [walk_directory (hpassed here List.mem_cons_self)] at h
    rw [walk_directory (hdirs here List.mem_cons_self)]
    split_ifs at h ⊢ with hlong
    exact ih h fun l hl => hdirs l (List.mem_cons_of_mem here hl)

theorem locate_of_directories {loc : Location} (h : t.locate p = .ok loc)
    (hdirs : ∀ l ∈ p.way, t'.find? l = some .directory) : t'.locate p = .ok loc := by
  unfold locate at h ⊢
  split_ifs at h ⊢
  exact walk_of_directories h hdirs

/-- A path is a file when it can be walked to its place and a file is there. -/
theorem isFile_iff : t.isFile p = .ok true ↔
    t.locate p = .ok p.place ∧ ∃ content, t.find? p.place = some (.file content) := by
  constructor
  · intro h
    unfold isFile stat at h
    cases hl : t.locate p with
    | error e => rw [hl] at h; cases e <;> cases h
    | ok loc =>
      obtain ⟨rfl, -⟩ := locate_ok hl
      rw [hl] at h
      cases hf : t.find? p.place with
      | none => simp only [hf] at h; cases h
      | some node =>
        cases node with
        | file content => exact ⟨rfl, content, rfl⟩
        | directory => simp only [hf] at h; cases h
  · rintro ⟨hl, content, hf⟩
    simp only [isFile, stat, hl, hf]

namespace Stored

variable {data : Bytes}

/-- Storing a file changes no directory that was there. -/
theorem directory (h : t.Stored t' p data) {l : Location} (hl : t.find? l = some .directory) :
    t'.find? l = some .directory := by
  rw [h.after]
  split_ifs with hplace
  · exact absurd (hplace ▸ hl) h.place
  · rfl
  · exact hl

/-- Storing a file keeps every other path a file that was one. -/
theorem isFile (h : t.Stored t' p data) (hq : t.isFile q = .ok true) : t'.isFile q = .ok true := by
  obtain ⟨hl, content, hf⟩ := isFile_iff.mp hq
  have hdirs : ∀ l ∈ q.way, t'.find? l = some .directory := fun l hmem =>
    h.directory ((locate_ok hl).2 l hmem)
  refine isFile_iff.mpr ⟨locate_of_directories hl hdirs, ?_⟩
  rw [h.after]
  split_ifs with hplace hway
  · exact ⟨data, rfl⟩
  · rcases h.way _ hway with hno | hno <;> rw [hf] at hno <;> cases hno
  · exact ⟨content, hf⟩

end Stored

/-- A stored file is found by its path. -/
theorem isFile_of_writeFile {data : Bytes} (h : t.writeFile p data = .ok t') :
    t'.isFile p = .ok true := by
  obtain ⟨hplace, hway, rfl⟩ := writeFile_ok h
  have hne : p.place ≠ [] := by
    intro hnil
    rw [hnil, find?_root] at hplace
    exact hplace rfl
  have hlocate : t.locate p = .ok p.place := by
    unfold writeFile fileTarget at h
    cases hl : t.locate p with
    | error e => rw [hl] at h; cases h
    | ok loc => rw [(locate_ok hl).1]
  refine isFile_iff.mpr ⟨locate_of_directories hlocate fun l hl => ?_, data, ?_⟩
  · rw [find?_set hne, if_neg fun heq => hplace (by rw [← heq]; exact hway l hl)]
    exact hway l hl
  · rw [find?_set hne, if_pos rfl]

end Tree

theorem Emitter.isFile_of_store {atomic : Bool} {t t' : Tree} {p : Path} {data : Bytes}
    (h : store atomic t p data = (t', .ok ())) : t'.isFile p = .ok true := by
  unfold store at h
  split at h
  · cases h
  · split_ifs at h
    · exact Tree.isFile_of_writeFile (Tree.writeFile_of_writeAtomically h)
    · split at h
      · rename_i hw
        cases h
        exact Tree.isFile_of_writeFile hw
      · cases h

/-- What emitting an artifact, not in a dry run, comes to when nothing fails. -/
theorem Emitter.emit_ok {em em' : Emitter} {t t' : Tree} {a : Artifact}
    (h : em.emit t a = (t', .ok em')) (hdry : em.dryRun = false) :
    em' = em.noteFile a ∧ t.Stored t' (em.target a.path) (utf8 a.content) ∧
      t'.isFile (em.target a.path) = .ok true := by
  unfold emit at h
  rw [if_neg (by simp [hdry])] at h
  split at h
  · cases h
  · rename_i hstore
    cases h
    exact ⟨rfl, stored_of_store hstore, isFile_of_store hstore⟩

/-- A job makes its file at its own path, whatever its stubs are. -/
theorem Job.path_of_render {site : Site} {s : Settings} {tree : Tree} {job : Job} {a : Artifact}
    {stubs stubs' : Stub.Repository} (h : job.render site s tree stubs = .ok (.made a, stubs')) :
    a.path = job.path s := by
  unfold render at h
  split at h
  · cases h
  · cases h
  · rename_i stub found hfind
    obtain ⟨⟨b, stubs''⟩, hfill, heq⟩ := Except.map_eq_ok_iff.mp h
    cases heq
    cases job with
    | data e =>
      obtain ⟨_, hmade, heq⟩ := Except.map_eq_ok_iff.mp hfill
      cases heq
      obtain ⟨ps, -, rfl⟩ := Except.map_eq_ok_iff.mp (Except.mapError_eq_ok_iff.mp hmade)
      rfl
    | controller c e =>
      obtain ⟨_, -, heq⟩ := Except.map_eq_ok_iff.mp hfill
      cases heq
      rfl

namespace Run

variable {site : Site} {s : Settings} {run run' : Run} {job : Job} {jobs : List Job}

/-- The job is done: its file is there, or else the run has an error to report. -/
def Settled (s : Settings) (directory : Path) (run : Run) (job : Job) : Prop :=
  run.tree.isFile (job.target directory s) = .ok true ∨ run.errors ≠ []

/-- What one job keeps of a run that writes files: where they go, and what is settled. -/
structure Continues (s : Settings) (run run' : Run) : Prop where
  directory : run'.emitter.directory = run.emitter.directory
  wet : run'.emitter.dryRun = run.emitter.dryRun
  settled : ∀ job, Settled s run.emitter.directory run job →
    Settled s run.emitter.directory run' job

theorem Continues.trans {run'' : Run} (h : Continues s run run') (h' : Continues s run' run'') :
    Continues s run run'' where
  directory := h'.directory.trans h.directory
  wet := h'.wet.trans h.wet
  settled := fun job hjob => h.directory ▸ h'.settled job (h.directory ▸ h.settled job hjob)

/-- A job that does not fail is settled and keeps what was settled before it. -/
theorem step_settled (h : run.step site s job = (run', .ok ()))
    (hdry : run.emitter.dryRun = false) :
    Continues s run run' ∧ Settled s run.emitter.directory run' job := by
  unfold step at h
  split at h
  · cases h
  · cases h
    refine ⟨⟨rfl, rfl, fun other hother => Or.inr ?_⟩, Or.inr ?_⟩ <;> simp [skip]
  · rename_i a stubs hrender
    split at h
    · cases h
    · rename_i t em hemit
      cases h
      obtain ⟨rfl, hstored, hfile⟩ := Emitter.emit_ok hemit hdry
      refine ⟨⟨rfl, rfl, fun other hother => ?_⟩, Or.inl ?_⟩
      · exact hother.imp hstored.isFile id
      · rw [Job.target, ← Job.path_of_render hrender]
        exact hfile

/-- All jobs of a run that came to its end are settled. -/
theorem steps_settled (h : Run.steps site s run jobs = (run', .ok ()))
    (hdry : run.emitter.dryRun = false) :
    Continues s run run' ∧ ∀ job ∈ jobs, Settled s run.emitter.directory run' job := by
  induction jobs generalizing run with
  | nil =>
    cases h
    exact ⟨⟨rfl, rfl, fun _ hjob => hjob⟩, by simp⟩
  | cons job rest ih =>
    rw [steps] at h
    split at h
    · cases h
    · rename_i next hstep
      obtain ⟨hnext, hjob⟩ := step_settled hstep hdry
      obtain ⟨hrest, hjobs⟩ := ih h (hnext.wet.trans hdry)
      refine ⟨hnext.trans hrest, List.forall_mem_cons.mpr ⟨?_, ?_⟩⟩
      · exact hnext.directory ▸ hrest.settled job (hnext.directory ▸ hjob)
      · exact hnext.directory ▸ hjobs

end Run

namespace Generation

variable {site : Site} {mode : Mode} {tree : Tree} {schema : Schema} {s : Settings}
  {output : Path} {r : GenerationReport}

/-- After a generation that reports success, the file of every job is there. -/
theorem isFile_of_success (h : (ofSchema site mode tree schema s output).value = .ok r)
    (hsuccess : r.success = true) (hdry : mode.dryRun = false) :
    ∀ job ∈ Job.all schema s, (ofSchema site mode tree schema s output).tree.isFile
      (job.target (Path.resolve site.cwd output) s) = .ok true := by
  have hcalls : ∀ e, (ofSchema site mode tree schema s output).value ≠ .error (.system e) := by
    intro e he
    rw [h] at he
    cases he
  have hcases := ofSchema_cases hcalls
  split at hcases
  · have hvalue := hcases.2.value
    rw [h] at hvalue
    cases hvalue
  split_ifs at hcases with hstop
  · obtain ⟨r', hr', -, hno⟩ := hcases.report
    rw [h] at hr'
    cases hr'
    rw [hno] at hsuccess
    cases hsuccess
  obtain ⟨before, -, htree, hvalue⟩ := hcases
  rw [htree]
  rw [hvalue] at h
  unfold doJobs at h ⊢
  simp only at h ⊢
  split at h
  · cases h
  · rename_i run hsteps
    simp only [finish_fst] at h
    cases h
    have hnone : run.errors = [] := by
      have hverdict := of_decide_eq_true hsuccess
      exact hverdict.1
    intro job hjob
    have hjobs := (Run.steps_settled hsteps hdry).2 job hjob
    exact hjobs.resolve_right fun hno => hno hnone

end Generation

end ApiScaffold
