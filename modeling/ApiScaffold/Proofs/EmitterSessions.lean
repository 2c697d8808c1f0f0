import ApiScaffold.Proofs.RemovedFiles
import Mathlib.Logic.Function.Basic

/-!
# Sessions with an emitter

One emitter is asked for a row of things: to emit artifacts and to take files away. Any of the
calls may fail, as the tree at that moment has it, and the session goes on after it. What the
files and the manifest are at the end is read off the calls and their answers alone: each call
that succeeded did its part, in order, and a call that failed did nothing, although it may have
made directories.
-/
namespace ApiScaffold

open Text

namespace Tree

variable {t t' : Tree} {p : Path}

/-- The file at a location. -/
def file? (t : Tree) (l : Location) : Option Bytes :=
  match t.find? l with
  | some (.file content) => some content
  | _ => none

theorem file?_eq_some {l : Location} {content : Bytes} :
    t.file? l = some content ↔ t.find? l = some (.file content) := by
  unfold file?
  cases t.find? l with
  | none => simp
  | some node => cases node <;> simp

theorem file?_congr {l : Location} (h : t'.find? l = t.find? l) : t'.file? l = t.file? l := by
  unfold file?
  rw [h]

theorem Opened.file? {trail : List Location} (h : Opened t t' trail) : t'.file? = t.file? := by
  funext l
  have hafter := h.after l
  split_ifs at hafter with hl
  · unfold Tree.file?
    rw [hafter]
    rcases h.before l hl with hno | hno <;> rw [hno]
  · exact file?_congr hafter

theorem file?_ensureDirectory (t : Tree) (p : Path) : (t.ensureDirectory p).1.file? = t.file? := by
  unfold ensureDirectory
  split
  · rename_i hmade
    exact (opened_of_makeDirectory hmade).file?
  · rfl
  · rfl
  · split <;> rfl

/-- Making directories, however far it comes, leaves the files. -/
theorem file?_makeDirectoriesFrom (root : Text) (names : List Text) (t : Tree) :
    (makeDirectoriesFrom root names t).1.file? = t.file? := by
  induction names generalizing t with
  | nil => exact file?_ensureDirectory t _
  | cons name above ih =>
    unfold makeDirectoriesFrom
    split
    · -- The tree of the failed attempt is dropped: the attempt changed nothing.
      have habove := ih t
      split
      · rename_i hfailed
        rw [hfailed] at habove
        exact habove
      · rename_i hdone
        rw [hdone] at habove
        exact (file?_ensureDirectory _ _).trans habove
    · exact file?_ensureDirectory t _

theorem file?_makeDirectories (t : Tree) (p : Path) : (t.makeDirectories p).1.file? = t.file? :=
  file?_makeDirectoriesFrom p.root p.parts.reverse t

theorem eq_of_writeAtomically_error {data : Bytes} {e : SystemError}
    (h : t.writeAtomically p data = (t', .error e)) : t' = t := by
  unfold writeAtomically at h
  split at h
  · cases h
    rfl
  · split at h <;> cases h

/-- A stored file replaces what was at its place, among the files. -/
theorem Stored.file? {data : Bytes} (h : t.Stored t' p data) :
    t'.file? = Function.update t.file? p.place (some data) := by
  funext l
  have hafter := h.after l
  rw [Function.update_apply]
  split_ifs at hafter ⊢ with hplace hway
  · exact file?_eq_some.mpr hafter
  · unfold Tree.file?
    rw [hafter]
    rcases h.way l hway with hno | hno <;> rw [hno]
  · exact file?_congr hafter

theorem file?_of_removeFile (h : t.removeFile p = .ok t') :
    t'.file? = Function.update t.file? p.place none := by
  unfold removeFile at h
  cases htarget : t.fileTarget p with
  | error e => rw [htarget] at h; cases h
  | ok loc =>
    obtain ⟨rfl, hne⟩ := place_ne_nil_of_fileTarget htarget
    rw [htarget, Except.bind] at h
    split_ifs at h
    cases h
    funext l
    have hunset := find?_unset hne t l
    rw [Function.update_apply]
    split_ifs at hunset ⊢ with hplace
    · unfold file?
      rw [hunset]
    · exact file?_congr hunset

theorem readFile_eq_ok_iff {content : Bytes} : t.readFile p = .ok content ↔
    t.locate p = .ok p.place ∧ t.file? p.place = some content := by
  rw [file?_eq_some]
  unfold readFile stat
  cases hl : t.locate p with
  | error e => simp
  | ok loc =>
    obtain ⟨rfl, -⟩ := locate_ok hl
    cases hf : t.find? p.place with
    | none => simp [hf]
    | some node => cases node <;> simp [hf]

/-- A path is a file when it can be read. -/
theorem isFile_iff_readFile : t.isFile p = .ok true ↔ ∃ content, t.readFile p = .ok content := by
  simp only [isFile_iff, readFile_eq_ok_iff, file?_eq_some, exists_and_left]

end Tree

namespace Emitter

variable {atomic : Bool} {t t' : Tree} {p : Path} {data : Bytes}

/-- A file that could not be stored leaves the files as they were. -/
theorem file?_of_store_error {e : SystemError} (h : store atomic t p data = (t', .error e)) :
    t'.file? = t.file? := by
  have hdirs := t.file?_makeDirectories p.parent
  unfold store at h
  split at h
  · rename_i hfailed
    cases h
    rw [hfailed] at hdirs
    exact hdirs
  · rename_i opened hdone
    rw [hdone] at hdirs
    split_ifs at h
    · rw [Tree.eq_of_writeAtomically_error h]
      exact hdirs
    · split at h
      · cases h
      · cases h
        exact hdirs

/-- A stored file is read again by its path. -/
theorem readFile_of_store (h : store atomic t p data = (t', .ok ())) :
    t'.readFile p = .ok data := by
  apply Tree.readFile_eq_ok_iff.mpr
  constructor
  · exact (Tree.isFile_iff.mp (isFile_of_store h)).1
  · rw [(stored_of_store h).file?, Function.update_self]

/-- Emitting an artifact fails and leaves the files, or stores it and notes it. -/
theorem emit_cases (em : Emitter) (t : Tree) (a : Artifact) :
    (∃ t' e, em.emit t a = (t', .error e) ∧ em.dryRun = false ∧ t'.file? = t.file?) ∨
    (em.dryRun = true ∧ em.emit t a = (t, .ok (em.noteFile a))) ∨
    ∃ t', em.dryRun = false ∧ em.emit t a = (t', .ok (em.noteFile a)) ∧
      t'.file? = Function.update t.file? (em.target a.path).place (some (utf8 a.content)) ∧
      t'.readFile (em.target a.path) = .ok (utf8 a.content) := by
  unfold emit
  by_cases hdry : em.dryRun = true
  · rw [if_pos hdry]
    exact Or.inr (Or.inl ⟨hdry, rfl⟩)
  · rw [if_neg hdry]
    have hwet : em.dryRun = false := by simpa using hdry
    cases hstore : store em.atomic t (em.target a.path) (utf8 a.content) with
    | mk t' answer =>
      cases answer with
      | error e => exact Or.inl ⟨t', e, rfl, hwet, file?_of_store_error hstore⟩
      | ok x =>
        exact Or.inr (Or.inr ⟨t', hwet, rfl, (stored_of_store hstore).file?,
          readFile_of_store hstore⟩)

/-- A call to take a file away fails when the path cannot be looked at, and only then. Otherwise
it notes what it found and takes away the file that was there. -/
theorem remove_cases (em : Emitter) (t : Tree) (path : Text) :
    (∃ e, t.isFile (em.target path) = .error e ∧ em.remove t path = (t, .error e)) ∨
    (t.isFile (em.target path) = .ok false ∧
      em.remove t path = (t, .ok (false, em.noteMissing path))) ∨
    ∃ t', t.isFile (em.target path) = .ok true ∧
      em.remove t path = (t', .ok (true, em.noteRemoved path)) ∧
      (em.dryRun = true → t' = t) ∧
      (em.dryRun = false → t'.file? = Function.update t.file? (em.target path).place none) := by
  unfold remove
  cases hfile : t.isFile (em.target path) with
  | error e => exact Or.inl ⟨e, rfl, by simp only [hfile]⟩
  | ok there =>
    cases there with
    | false => exact Or.inr (Or.inl ⟨rfl, by simp only [hfile]⟩)
    | true =>
      obtain ⟨left, hremove, -⟩ := Tree.removeFile_of_isFile hfile
      by_cases hdry : em.dryRun = true
      · exact Or.inr (Or.inr ⟨t, rfl, by simp only [hfile, if_pos hdry], fun _ => rfl,
          fun hwet => absurd hdry (by simp [hwet])⟩)
      · exact Or.inr (Or.inr ⟨left, rfl, by simp only [hfile, if_neg hdry, hremove],
          fun h => absurd h hdry, fun _ => Tree.file?_of_removeFile hremove⟩)

/-- An emitter and the tree that it works on. -/
structure Session where
  tree : Tree
  emitter : Emitter

namespace Session

inductive Call where
  | emit (a : Artifact)
  | remove (path : Text)
  deriving DecidableEq, Repr

inductive Reply where
  | written
  /-- Whether there was a file to take away. -/
  | removed (there : Bool)
  | failed (e : SystemError)
  deriving DecidableEq, Repr

/-- One call. After an error the emitter goes on as it was. -/
def step (session : Session) : Call → Session × Reply
  | .emit a =>
    match session.emitter.emit session.tree a with
    | (tree, .error e) => ({ session with tree }, .failed e)
    | (tree, .ok emitter) => (⟨tree, emitter⟩, .written)
  | .remove path =>
    match session.emitter.remove session.tree path with
    | (tree, .error e) => ({ session with tree }, .failed e)
    | (tree, .ok (there, emitter)) => (⟨tree, emitter⟩, .removed there)

/-- All calls in order, each with its answer. -/
def run (session : Session) : List Call → Session × List (Call × Reply)
  | [] => (session, [])
  | call :: rest =>
    let answer := session.step call
    let later := answer.1.run rest
    (later.1, (call, answer.2) :: later.2)

/-- Where a path leads from an output directory. -/
def target (directory : Path) (path : Text) : Path := directory.append (.ofText path)

/-- What a call with its answer makes of the files. -/
def effect (directory : Path) (files : Location → Option Bytes) :
    Call × Reply → Location → Option Bytes
  | (.emit a, .written) =>
    Function.update files (target directory a.path).place (some (utf8 a.content))
  | (.remove path, .removed true) => Function.update files (target directory path).place none
  | _ => files

/-- The artifact that a call emitted. -/
def emitted? : Call × Reply → Option Artifact
  | (.emit a, .written) => some a
  | _ => none

/-- The path of a call to take a file away that got this answer. -/
def answered? (there : Bool) : Call × Reply → Option Text
  | (.remove path, .removed found) => if found = there then some path else none
  | _ => none

/-- The record that an emitted artifact gets. -/
def record (directory : Path) (a : Artifact) : FileRecord := .of a (target directory a.path).text

/-- What calls with their answers add to a manifest. -/
def noted (directory : Path) (m : Manifest) (events : List (Call × Reply)) : Manifest :=
  { m with
    files := m.files ++ (events.filterMap emitted?).map (record directory)
    removed := m.removed ++ events.filterMap (answered? true)
    missing := m.missing ++ events.filterMap (answered? false) }

theorem noted_append (directory : Path) (m : Manifest) (events later : List (Call × Reply)) :
    noted directory m (events ++ later) = noted directory (noted directory m events) later := by
  simp only [noted, List.filterMap_append, List.map_append, List.append_assoc]

theorem noted_emit (directory : Path) (m : Manifest) (a : Artifact) :
    noted directory m [(.emit a, .written)] =
      { m with files := m.files ++ [record directory a] } := by
  simp [noted, List.filterMap_cons, emitted?, answered?]

theorem noted_removed (directory : Path) (m : Manifest) (path : Text) :
    noted directory m [(.remove path, .removed true)] =
      { m with removed := m.removed ++ [path] } := by
  simp [noted, List.filterMap_cons, emitted?, answered?]

theorem noted_missing (directory : Path) (m : Manifest) (path : Text) :
    noted directory m [(.remove path, .removed false)] =
      { m with missing := m.missing ++ [path] } := by
  simp [noted, List.filterMap_cons, emitted?, answered?]

theorem noted_failed (directory : Path) (m : Manifest) (call : Call) (e : SystemError) :
    noted directory m [(call, .failed e)] = m := by
  cases call <;> simp [noted, List.filterMap_cons, emitted?, answered?]

/-- The calls did their parts and nothing else, as far as their answers say so. -/
structure Keeps (session later : Session) (events : List (Call × Reply)) : Prop where
  files : session.emitter.dryRun = false → later.tree.file? =
    events.foldl (effect session.emitter.directory) session.tree.file?
  dry : session.emitter.dryRun = true → later.tree = session.tree
  directory : later.emitter.directory = session.emitter.directory
  dryRun : later.emitter.dryRun = session.emitter.dryRun
  manifest : later.emitter.manifest =
    noted session.emitter.directory session.emitter.manifest events

namespace Keeps

variable {session next later : Session} {events events' : List (Call × Reply)}

theorem refl (session : Session) : Keeps session session [] :=
  ⟨fun _ => rfl, fun _ => rfl, rfl, rfl, by simp [noted]⟩

theorem trans (h : Keeps session next events) (h' : Keeps next later events') :
    Keeps session later (events ++ events') where
  files := fun hwet => by
    rw [h'.files (h.dryRun.trans hwet), h.directory, h.files hwet, List.foldl_append]
  dry := fun hdry => (h'.dry (h.dryRun.trans hdry)).trans (h.dry hdry)
  directory := h'.directory.trans h.directory
  dryRun := h'.dryRun.trans h.dryRun
  manifest := by rw [h'.manifest, h.directory, h.manifest, noted_append]

end Keeps

/-- A failed call leaves everything but directories. -/
theorem keeps_failed {session : Session} {tree : Tree} (call : Call)
    (hfiles : tree.file? = session.tree.file?)
    (hdry : session.emitter.dryRun = true → tree = session.tree) (e : SystemError) :
    Keeps session { session with tree } [(call, .failed e)] where
  files := fun _ => by cases call <;> exact hfiles
  dry := hdry
  directory := rfl
  dryRun := rfl
  manifest := (noted_failed _ _ _ _).symm

/-- One call. -/
theorem keeps_step (session : Session) (call : Call) :
    Keeps session (session.step call).1 [(call, (session.step call).2)] := by
  cases call with
  | emit a =>
    obtain ⟨tree, e, hemit, hwet, hfiles⟩ | ⟨hdry, hemit⟩ | ⟨tree, hwet, hemit, hfiles, -⟩ :=
      session.emitter.emit_cases session.tree a <;> simp only [step, hemit]
    · exact keeps_failed _ hfiles (by simp [hwet]) e
    · exact ⟨by simp [hdry], fun _ => rfl, rfl, rfl, (noted_emit _ _ a).symm⟩
    · exact ⟨fun _ => hfiles, by simp [hwet], rfl, rfl, (noted_emit _ _ a).symm⟩
  | remove path =>
    obtain ⟨e, -, hremove⟩ | ⟨-, hremove⟩ | ⟨tree, -, hremove, hdry, hfiles⟩ :=
      session.emitter.remove_cases session.tree path <;> simp only [step, hremove]
    · exact keeps_failed _ rfl (fun _ => rfl) e
    · exact ⟨fun _ => rfl, fun _ => rfl, rfl, rfl, (noted_missing _ _ path).symm⟩
    · exact ⟨hfiles, hdry, rfl, rfl, (noted_removed _ _ path).symm⟩

/-- All calls. -/
theorem keeps_run (session : Session) (calls : List Call) :
    Keeps session (session.run calls).1 (session.run calls).2 := by
  induction calls generalizing session with
  | nil => exact .refl session
  | cons call rest ih => exact (keeps_step session call).trans (ih _)

theorem run_calls (session : Session) (calls : List Call) :
    (session.run calls).2.map Prod.fst = calls := by
  induction calls generalizing session with
  | nil => rfl
  | cons call rest ih => exact congrArg (call :: ·) (ih _)

/-- A call that fails leaves the emitter, besides the files. -/
theorem emitter_of_failed {session : Session} {call : Call} {e : SystemError}
    (h : (session.step call).2 = .failed e) :
    (session.step call).1.emitter = session.emitter := by
  cases call with
  | emit a =>
    simp only [step] at h ⊢
    split at h
    · rfl
    · cases h
  | remove path =>
    simp only [step] at h ⊢
    split at h
    · rfl
    · cases h

theorem files_of_failed {session : Session} {call : Call} {e : SystemError}
    (h : (session.step call).2 = .failed e) :
    (session.step call).1.tree.file? = session.tree.file? := by
  have hkeeps := keeps_step session call
  rw [h] at hkeeps
  cases hdry : session.emitter.dryRun with
  | true => rw [hkeeps.dry hdry]
  | false =>
    rw [hkeeps.files hdry]
    cases call <;> rfl

/-- An emitted artifact is read again at its path. -/
theorem readFile_of_step {session : Session} {a : Artifact} (hdry : session.emitter.dryRun = false)
    (h : (session.step (.emit a)).2 = .written) :
    (session.step (.emit a)).1.tree.readFile (target session.emitter.directory a.path) =
      .ok (utf8 a.content) := by
  obtain ⟨tree, e, hemit, -⟩ | ⟨hno, -⟩ | ⟨tree, -, hemit, -, hread⟩ :=
    session.emitter.emit_cases session.tree a
  · simp only [step, hemit] at h
    cases h
  · rw [hdry] at hno
    cases hno
  · simp only [step, hemit]
    exact hread

/-- A call to take a file away says yes exactly when the path can be read as a file. -/
theorem step_remove_iff (session : Session) (path : Text) :
    (session.step (.remove path)).2 = .removed true ↔
      ∃ content, session.tree.readFile (target session.emitter.directory path) = .ok content := by
  have hread : session.tree.isFile (session.emitter.target path) = .ok true ↔
      ∃ content, session.tree.readFile (target session.emitter.directory path) = .ok content :=
    Tree.isFile_iff_readFile
  rw [← hread]
  obtain ⟨e, hfile, hremove⟩ | ⟨hfile, hremove⟩ | ⟨tree, hfile, hremove, -⟩ :=
    session.emitter.remove_cases session.tree path <;> simp [step, hremove, hfile]

/-- What a session of one emitter comes to, from any tree: the files are those at the start with
what the successful calls did to them, in order, and a dry run leaves the whole tree. The manifest
has a record for each artifact that was emitted and the path of each call to take a file away that
was answered. Whatever call comes next, if it fails then it changes no file and nothing in the
manifest, and a file is found exactly where there is one. -/
theorem run_from_start (directory : Path) (atomic dryRun : Bool) (tree : Tree)
    (calls : List Call) :
    let (last, events) := (Session.mk tree (.start directory atomic dryRun)).run calls
    let emitted := events.filterMap emitted?
    let manifest := last.emitter.manifest
    events.map Prod.fst = calls ∧
    (if dryRun then last.tree = tree
      else last.tree.file? = events.foldl (effect directory) tree.file?) ∧
    manifest.files = emitted.map (record directory) ∧
    manifest.totalBytes = (emitted.map fun a => (utf8 a.content).length).foldr (· + ·) 0 ∧
    manifest.totalLines = (emitted.map fun a => lineCount a.content).foldr (· + ·) 0 ∧
    manifest.removed = events.filterMap (answered? true) ∧
    manifest.missing = events.filterMap (answered? false) ∧
    (∀ call e, (last.step call).2 = .failed e →
      (last.step call).1.tree.file? = last.tree.file? ∧
        (last.step call).1.emitter = last.emitter) ∧
    (∀ a, dryRun = false → (last.step (.emit a)).2 = .written →
      (last.step (.emit a)).1.tree.readFile (target directory a.path) = .ok (utf8 a.content)) ∧
    ∀ path, (last.step (.remove path)).2 = .removed true ↔
      ∃ content, last.tree.readFile (target directory path) = .ok content := by
  have hkeeps := keeps_run (Session.mk tree (.start directory atomic dryRun)) calls
  have hcalls := run_calls (Session.mk tree (.start directory atomic dryRun)) calls
  generalize (Session.mk tree (.start directory atomic dryRun)).run calls = answer at *
  obtain ⟨last, events⟩ := answer
  have hdirectory : last.emitter.directory = directory := hkeeps.directory
  have hmanifest := hkeeps.manifest
  have hfiles : last.emitter.manifest.files =
      (events.filterMap emitted?).map (record directory) := by
    rw [hmanifest]
    rfl
  refine ⟨hcalls, ?files, hfiles, ?bytes, ?lines, ?removed, ?missing, ?failed, ?read, ?found⟩
  case files =>
    split_ifs with hdry
    · exact hkeeps.dry hdry
    · exact hkeeps.files (Bool.not_eq_true _ ▸ hdry)
  case bytes =>
    rw [Manifest.totalBytes, hfiles, List.map_map]
    rfl
  case lines =>
    rw [Manifest.totalLines, hfiles, List.map_map]
    rfl
  case removed =>
    rw [hmanifest]
    rfl
  case missing =>
    rw [hmanifest]
    rfl
  case failed =>
    intro call e h
    exact ⟨files_of_failed h, emitter_of_failed h⟩
  case read =>
    intro a hdry hwritten
    have hread := readFile_of_step (hkeeps.dryRun.trans hdry) hwritten
    rwa [hdirectory] at hread
  case found =>
    intro path
    rw [step_remove_iff, hdirectory]

/-- A file is in the way of a directory, and later a directory in the way of a file. -/
example : ((Session.mk ⟨[(["out"], .directory), (["out", "a"], .file [])]⟩
      (.start ⟨"/", ["out"]⟩ true false)).run
    [.emit ⟨"data", "a/b", "x"⟩, .remove "a", .emit ⟨"data", "a/b", "x"⟩,
      .emit ⟨"data", "a", "y"⟩, .remove "a"]).2.map Prod.snd =
    [.failed .alreadyExists, .removed true, .written, .failed .isDirectory, .removed false] := by
  decide +kernel

end Session

end Emitter

end ApiScaffold
