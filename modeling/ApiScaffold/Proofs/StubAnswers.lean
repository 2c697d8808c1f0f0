import ApiScaffold.Proofs.RenderingFailures
import ApiScaffold.Stub.Packaged

/-!
# What a repository answers

A repository answers a name with the text that it remembers or else with the one that it reads.
A search makes it remember more and changes no answer, whatever it remembered before and whether
or not the files still say the same. So a job comes to the outcome that the answers decide, in any
repository, and the methods of a controller are those of its actions that are answered with a
stub. The repository that a job leaves behind is not described here.
-/
namespace ApiScaffold

open Text

namespace Stub.Repository

variable {r r' : Repository} {tree : Tree} {cwd : Path} {name : Text}

/-- What a search for a name comes to, without what is remembered of it. -/
def answer (r : Repository) (tree : Tree) (cwd : Path) : Lookup :=
  fun name => (r.find tree cwd name).map (·.1)

theorem answer_of_error {e : ReadError} (h : r.find tree cwd name = .error e) :
    r.answer tree cwd name = .error e := by
  rw [answer, h]
  rfl

theorem answer_of_ok {text : Option Text} (h : r.find tree cwd name = .ok (text, r')) :
    r.answer tree cwd name = .ok text := by
  rw [answer, h]
  rfl

/-- What is remembered last does not hide what was remembered before. -/
theorem answer_remembering {text : Option Text} (hread : r.read tree cwd name = .ok text) :
    ({ r with found := r.found ++ [(name, text)] } : Repository).answer tree cwd =
      r.answer tree cwd := by
  funext other
  have hsame : ({ r with found := r.found ++ [(name, text)] } : Repository).read tree cwd other =
      r.read tree cwd other := read_congr_directories rfl tree cwd other
  unfold answer find
  rw [List.find?_append, hsame]
  cases hother : r.found.find? fun entry => entry.1 = other with
  | some entry => rfl
  | none =>
    by_cases heq : name = other
    · subst heq
      rw [Option.none_or, List.find?_cons_of_pos (by simp)]
      simp only [hread]
    · rw [Option.none_or, List.find?_cons_of_neg (by simpa using heq), List.find?_nil]
      cases r.read tree cwd other <;> rfl

theorem answer_after_find {text : Option Text} (h : r.find tree cwd name = .ok (text, r')) :
    r'.answer tree cwd = r.answer tree cwd := by
  unfold find at h
  cases hknown : r.found.find? fun entry => entry.1 = name with
  | some entry =>
    rw [hknown] at h
    cases h
    rfl
  | none =>
    rw [hknown] at h
    cases hread : r.read tree cwd name with
    | error e => simp [hread] at h
    | ok found =>
      simp only [hread, Except.ok.injEq, Prod.mk.injEq] at h
      rw [← h.2]
      exact answer_remembering hread

end Stub.Repository

namespace ControllerFile

/-- Whether an action is answered with a stub. -/
def isAnswered (look : Lookup) (verb : Text) : Bool :=
  match look (methodStub verb) with
  | .ok (some _) => true
  | _ => false

/-- The actions that get a method: those that the settings let be written and that are answered
with a stub, in declared order. -/
def renderedVerbs (look : Lookup) (s : Settings) (c : Controller) : List Text :=
  (writtenVerbs s c).filter (isAnswered look)

end ControllerFile

namespace Job

variable {site : Site} {s : Settings} {tree : Tree}

/-- The first action has no stub and is left out, or it has the first of the texts. -/
theorem methodTexts_cons_eq_ok {look : Lookup} {now : Moment} {c : Controller}
    {e : Option Entity} {verb : Text} {rest : List Text} {texts : List (Text × Text)}
    (h : methodTexts look s now c e (verb :: rest) = .ok texts) :
    look (ControllerFile.methodStub verb) = .ok none ∧
        methodTexts look s now c e rest = .ok texts ∨
      ∃ stub text more, look (ControllerFile.methodStub verb) = .ok (some stub) ∧
        ControllerFile.methodText s now c e verb stub = .ok text ∧
        methodTexts look s now c e rest = .ok more ∧ texts = (verb, text) :: more := by
  unfold methodTexts at h
  cases hlook : look (ControllerFile.methodStub verb) with
  | error err => simp [hlook] at h
  | ok answer =>
    rw [hlook] at h
    cases answer with
    | none => exact Or.inl ⟨rfl, h⟩
    | some stub =>
      cases htext : ControllerFile.methodText s now c e verb stub with
      | error m => simp [htext] at h
      | ok text =>
        cases hmore : methodTexts look s now c e rest with
        | error f => simp [htext, hmore, Except.map] at h
        | ok more =>
          simp only [htext, hmore, Except.map, Except.ok.injEq] at h
          exact Or.inr ⟨stub, text, more, rfl, htext, rfl, h.symm⟩

theorem methodTexts_verbs {look : Lookup} {now : Moment} {c : Controller} {e : Option Entity}
    {verbs : List Text} {texts : List (Text × Text)}
    (h : methodTexts look s now c e verbs = .ok texts) :
    texts.map (·.1) = verbs.filter (ControllerFile.isAnswered look) := by
  induction verbs generalizing texts with
  | nil =>
    cases h
    rfl
  | cons verb rest ih =>
    rcases methodTexts_cons_eq_ok h with ⟨hlook, hrest⟩ | ⟨stub, text, more, hlook, -, hmore, rfl⟩
    · have hno : ControllerFile.isAnswered look verb = false := by
        simp [ControllerFile.isAnswered, hlook]
      rw [List.filter_cons_of_neg (by simp [hno])]
      exact ih hrest
    · have hyes : ControllerFile.isAnswered look verb = true := by
        simp [ControllerFile.isAnswered, hlook]
      rw [List.filter_cons_of_pos hyes, List.map_cons, ih hmore]

/-- The text of every action that is answered with a stub is there. -/
theorem mem_methodTexts {look : Lookup} {now : Moment} {c : Controller} {e : Option Entity}
    {verbs : List Text} {texts : List (Text × Text)}
    (h : methodTexts look s now c e verbs = .ok texts) {verb stub : Text} (hverb : verb ∈ verbs)
    (hstub : look (ControllerFile.methodStub verb) = .ok (some stub)) :
    ∃ text, ControllerFile.methodText s now c e verb stub = .ok text ∧ (verb, text) ∈ texts := by
  induction verbs generalizing texts with
  | nil => cases hverb
  | cons first rest ih =>
    rcases methodTexts_cons_eq_ok h with
      ⟨hlook, hrest⟩ | ⟨own, text, more, hlook, htext, hmore, rfl⟩
    · rcases List.mem_cons.mp hverb with rfl | hverb
      · rw [hlook] at hstub
        cases hstub
      · exact ih hrest hverb
    · rcases List.mem_cons.mp hverb with rfl | hverb
      · rw [hlook] at hstub
        cases hstub
        exact ⟨text, htext, List.mem_cons_self⟩
      · obtain ⟨text', htext', hmem⟩ := ih hmore hverb
        exact ⟨text', htext', List.mem_cons_of_mem _ hmem⟩

theorem methods_answer (site : Site) (s : Settings) (tree : Tree) (c : Controller)
    (e : Option Entity) (verbs : List Text) (stubs : Stub.Repository) :
    (methods site s tree c e verbs stubs).map (·.1) =
      methodTexts (stubs.answer tree site.cwd) s site.now c e verbs := by
  induction verbs generalizing stubs with
  | nil => rfl
  | cons verb rest ih =>
    unfold methods methodTexts
    cases hfind : stubs.find tree site.cwd (ControllerFile.methodStub verb) with
    | error err => simp [Stub.Repository.answer_of_error hfind, Except.map]
    | ok found =>
      obtain ⟨text, stubs'⟩ := found
      have hrest := ih stubs'
      rw [Stub.Repository.answer_after_find hfind] at hrest
      rw [Stub.Repository.answer_of_ok hfind]
      cases text with
      | none => exact hrest
      | some stub =>
        cases htext : ControllerFile.methodText s site.now c e verb stub with
        | error m => simp [htext, Except.map]
        | ok text =>
          simp only [htext, ← hrest]
          cases methods site s tree c e rest stubs' <;> rfl

/-- A job comes to the outcome that the answers of its repository decide. -/
theorem render_answer (site : Site) (s : Settings) (tree : Tree) (job : Job)
    (stubs : Stub.Repository) :
    (job.render site s tree stubs).map (·.1) =
      job.outcome (stubs.answer tree site.cwd) s site.now := by
  unfold render outcome
  cases hfind : stubs.find tree site.cwd job.classStub with
  | error err => simp [Stub.Repository.answer_of_error hfind, Except.map]
  | ok found =>
    obtain ⟨text, stubs'⟩ := found
    rw [Stub.Repository.answer_of_ok hfind]
    cases text with
    | none => rfl
    | some stub =>
      cases job with
      | data e =>
        simp only [fill, fileFrom]
        cases DataFile.artifact s e stub <;> rfl
      | controller c e =>
        have hmethods := methods_answer site s tree c e
          (ControllerFile.writtenVerbs s c) stubs'
        rw [Stub.Repository.answer_after_find hfind] at hmethods
        simp only [fill, fileFrom, ← hmethods]
        cases methods site s tree c e (ControllerFile.writtenVerbs s c) stubs' <;> rfl

theorem map_fst_eq_ok {ε α β : Type} {x : Except ε (α × β)} {a : α} (h : x.map (·.1) = .ok a) :
    ∃ b, x = .ok (a, b) := by
  cases x with
  | error e => cases h
  | ok p =>
    cases h
    exact ⟨p.2, rfl⟩

theorem map_fst_eq_error {ε α β : Type} {x : Except ε (α × β)} {e : ε}
    (h : x.map (·.1) = .error e) : x = .error e := by
  cases x with
  | error e' => cases h; rfl
  | ok p => cases h

variable {stubs : Stub.Repository} {stub : Text}

/-- A data object whose class stub is found is rendered with its properties, unless the class of an
enum cannot be written. -/
theorem render_data (h : stubs.answer tree site.cwd DataFile.classStub = .ok (some stub))
    (e : Entity) :
    (render site s tree stubs (data e) = .error (.misuse .tooLongToWrite) ∧
        ∃ c ∈ e.columns, c.isBodyColumn = true ∧ c.HasLongClass) ∨
      ∃ properties stubs', DataFile.properties s e = .ok properties ∧
        render site s tree stubs (data e) =
          .ok (.made (DataFile.fileOf s e stub properties), stubs') := by
  have houtcome := render_answer site s tree (data e) stubs
  simp only [outcome, classStub, h, fileFrom, DataFile.artifact] at houtcome
  cases hproperties : DataFile.properties s e with
  | error m =>
    obtain ⟨rfl, hlong⟩ := DataFile.properties_eq_error hproperties
    rw [hproperties] at houtcome
    exact Or.inl ⟨map_fst_eq_error houtcome, hlong⟩
  | ok properties =>
    rw [hproperties] at houtcome
    obtain ⟨stubs', hrender⟩ := map_fst_eq_ok houtcome
    exact Or.inr ⟨properties, stubs', rfl, hrender⟩

/-- A controller whose class stub is found is rendered with a method for each action that has a
stub, unless such a stub cannot be read, the calendar does not cover the moment or a value of an
enum column cannot be written. -/
theorem render_controller (h : stubs.answer tree site.cwd ControllerFile.classStub =
    .ok (some stub)) (c : Controller) (e : Option Entity) :
    (∃ f, render site s tree stubs (controller c e) = .error f ∧
        Hindered (stubs.answer tree site.cwd) site.now
          ((ControllerFile.writtenVerbs s c).map ControllerFile.methodStub)
          (controller c e).columns f) ∨
      ∃ methods stubs', render site s tree stubs (controller c e) =
          .ok (.made (ControllerFile.artifact s c e stub methods), stubs') ∧
        methods.map (·.1) = ControllerFile.renderedVerbs (stubs.answer tree site.cwd) s c := by
  have houtcome := render_answer site s tree (controller c e) stubs
  simp only [outcome, classStub, h, fileFrom] at houtcome
  cases htexts : methodTexts (stubs.answer tree site.cwd) s site.now c e
      (ControllerFile.writtenVerbs s c) with
  | error f =>
    rw [htexts] at houtcome
    exact Or.inl ⟨f, map_fst_eq_error houtcome, hindered_of_methodTexts htexts⟩
  | ok methods =>
    rw [htexts] at houtcome
    obtain ⟨stubs', hrender⟩ := map_fst_eq_ok houtcome
    exact Or.inr ⟨methods, stubs', hrender, methodTexts_verbs htexts⟩

end Job

/-- A repository that remembers all packaged stubs and has no directories to read others from. -/
def packagedStubs : Stub.Repository :=
  { directories := [], found := Stub.packaged.map fun entry => (entry.1, some entry.2) }

end ApiScaffold
