import ApiScaffold.Proofs.Rendering

/-!
# Stubs that are remembered

One repository is asked for stubs over and over, while the files change between the calls in any
way. What a call to find or to load a stub says is decided by the first such call for the name that
came to an end: it looked at the files of its moment, in the earliest directory that had one of the
name, and all later calls repeat its answer, absence included. A call that fails leaves no trace,
and a call to locate a stub always looks at the files as they are.
-/
namespace ApiScaffold.Stub

open Text

namespace Repository

variable {r r' : Repository} {directories : List Path} {tree : Tree} {cwd : Path}
  {name other : Text} {text : Option Text}

/-! ### What the directories have -/

/-- The place of a stub: in the earliest directory that has a file of the name, if there is one. -/
def FirstPlace (tree : Tree) (cwd : Path) (directories : List Path) (name : Text) :
    Option Path → Prop
  | some place => ∃ before dir after, directories = before ++ dir :: after ∧
      place = dir.append (.ofText name) ∧ tree.isFile (cwd.append place) = .ok true ∧
      ∀ d ∈ before, tree.isFile (cwd.append (d.append (.ofText name))) = .ok false
  | none => ∀ d ∈ directories, tree.isFile (cwd.append (d.append (.ofText name))) = .ok false

/-- The text of the file at the place of a stub, if it has one. -/
def FirstText (tree : Tree) (cwd : Path) (directories : List Path) (name : Text) :
    Option Text → Prop
  | some text => ∃ place bytes, FirstPlace tree cwd directories name (some place) ∧
      tree.readFile (cwd.append place) = .ok bytes ∧ ofFile bytes = .ok text
  | none => FirstPlace tree cwd directories name none

theorem firstPlace_cons {dir : Path} {place : Option Path} :
    FirstPlace tree cwd (dir :: directories) name place ↔
      tree.isFile (cwd.append (dir.append (.ofText name))) = .ok true ∧
          place = some (dir.append (.ofText name)) ∨
        tree.isFile (cwd.append (dir.append (.ofText name))) = .ok false ∧
          FirstPlace tree cwd directories name place := by
  cases place with
  | none => simp [FirstPlace]
  | some place =>
    constructor
    · rintro ⟨before, d, after, hsplit, rfl, hfile, hbefore⟩
      rcases List.cons_eq_append_iff.mp hsplit with ⟨rfl, hrest⟩ | ⟨more, rfl, rfl⟩
      · obtain ⟨rfl, rfl⟩ := List.cons.inj hrest
        exact Or.inl ⟨hfile, rfl⟩
      · obtain ⟨hdir, hmore⟩ := List.forall_mem_cons.mp hbefore
        exact Or.inr ⟨hdir, more, d, after, rfl, rfl, hfile, hmore⟩
    · rintro (⟨hfile, heq⟩ | ⟨hdir, before, d, after, rfl, rfl, hfile, hbefore⟩)
      · cases heq
        exact ⟨[], dir, directories, rfl, rfl, hfile, by simp⟩
      · exact ⟨dir :: before, d, after, rfl, rfl, hfile, List.forall_mem_cons.mpr ⟨hdir, hbefore⟩⟩

theorem locateIn_eq_ok_iff {place : Option Path} :
    locateIn tree cwd name directories = .ok place ↔
      FirstPlace tree cwd directories name place := by
  induction directories with
  | nil => cases place <;> simp [locateIn, FirstPlace]
  | cons dir rest ih =>
    rw [firstPlace_cons, locateIn]
    cases tree.isFile (cwd.append (dir.append (.ofText name))) with
    | error e => simp
    | ok isFile =>
      cases isFile with
      | true => simp [eq_comm]
      | false => simp [ih]

theorem read_eq_ok_iff :
    r.read tree cwd name = .ok text ↔ FirstText tree cwd r.directories name text := by
  have hplace {place : Option Path} : r.locate tree cwd name = .ok place ↔
      FirstPlace tree cwd r.directories name place := locateIn_eq_ok_iff
  cases text with
  | none =>
    rw [FirstText, ← hplace]
    unfold read
    cases r.locate tree cwd name with
    | error e => simp
    | ok place =>
      cases place with
      | none => simp
      | some place =>
        dsimp only
        cases tree.readFile (cwd.append place) with
        | error e => simp
        | ok bytes => cases hbytes : ofFile bytes <;> simp [hbytes]
  | some text =>
    simp only [FirstText, ← hplace]
    unfold read
    cases r.locate tree cwd name with
    | error e => simp
    | ok place =>
      cases place with
      | none => simp
      | some place =>
        dsimp only
        cases hread : tree.readFile (cwd.append place) with
        | error e => simp [hread]
        | ok bytes => cases hbytes : ofFile bytes <;> simp [hread, hbytes]

/-! ### What is remembered -/

/-- What is remembered of a name: its text, or its absence. -/
def remembered (r : Repository) (name : Text) : Option (Option Text) :=
  (r.found.find? fun entry => entry.1 = name).map (·.2)

/-- A search repeats what is remembered. What it reads when nothing is remembered it remembers for
the name, and it remembers nothing when the reading fails. -/
theorem find_cases (r : Repository) (tree : Tree) (cwd : Path) (name : Text) :
    (∃ text, r.remembered name = some text ∧ r.find tree cwd name = .ok (text, r)) ∨
      r.remembered name = none ∧
        ((∃ e, r.read tree cwd name = .error e ∧ r.find tree cwd name = .error e) ∨
          ∃ text r', r.read tree cwd name = .ok text ∧ r.find tree cwd name = .ok (text, r') ∧
            r'.directories = r.directories ∧
            ∀ other, r'.remembered other =
              if other = name then some text else r.remembered other) := by
  unfold remembered find
  cases hknown : r.found.find? fun entry => entry.1 = name with
  | some entry => exact Or.inl ⟨entry.2, rfl, rfl⟩
  | none =>
    refine Or.inr ⟨rfl, ?_⟩
    cases hread : r.read tree cwd name with
    | error e => exact Or.inl ⟨e, rfl, rfl⟩
    | ok text =>
      refine Or.inr ⟨text, _, rfl, rfl, rfl, fun other => ?_⟩
      dsimp only
      rw [List.find?_append]
      split_ifs with heq
      · rw [heq, hknown, Option.none_or, List.find?_cons_of_pos (by simp)]
        rfl
      · rw [List.find?_cons_of_neg (by simpa using Ne.symm heq), List.find?_nil, Option.or_none]

/-! ### Calls -/

/-- What a repository can be asked. -/
inductive Call where
  | find (name : Text)
  | load (name : Text)
  | locate (name : Text)
  deriving DecidableEq, Repr

inductive Reply where
  | found (text : Option Text)
  | loaded (text : Text)
  | missing (m : Missing)
  | place (p : Option Path)
  | failed (e : ReadError)
  deriving DecidableEq, Repr

/-- The repository after a call, among the files as they are then, and the answer. -/
def step (cwd : Path) (r : Repository) (tree : Tree) : Call → Repository × Reply
  | .find name =>
    match r.find tree cwd name with
    | .error e => (r, .failed e)
    | .ok (text, r) => (r, .found text)
  | .load name =>
    match r.load tree cwd name with
    | .error e => (r, .failed e)
    | .ok (.ok text, r) => (r, .loaded text)
    | .ok (.error m, r) => (r, .missing m)
  | .locate name =>
    match r.locate tree cwd name with
    | .error e => (r, .failed (.system e))
    | .ok place => (r, .place place)

/-- The calls of a row, each among the files of its moment, with their answers. -/
abbrev Event := (Tree × Call) × Reply

/-- A row of calls, between which the files may change in any way. -/
def run (cwd : Path) : Repository → List (Tree × Call) → Repository × List Event
  | r, [] => (r, [])
  | r, (tree, call) :: rest =>
    let (next, reply) := r.step cwd tree call
    let (last, events) := run cwd next rest
    (last, ((tree, call), reply) :: events)

/-- The call wants the text of the stub. -/
def Call.AsksFor (name : Text) (call : Call) : Prop := call = .find name ∨ call = .load name

theorem Call.asksFor_or_locate (call : Call) :
    (∃ name, call.AsksFor name) ∨ ∃ name, call = .locate name := by
  cases call with
  | find name => exact Or.inl ⟨name, Or.inl rfl⟩
  | load name => exact Or.inl ⟨name, Or.inr rfl⟩
  | locate name => exact Or.inr ⟨name, rfl⟩

/-- The answer to a call that wants a stub and comes to an end: the text, or that there is none. -/
inductive Completes (directories : List Path) : Text → Option Text → Call → Reply → Prop
  | find {name : Text} {text : Option Text} :
    Completes directories name text (.find name) (.found text)
  | load {name text : Text} : Completes directories name (some text) (.load name) (.loaded text)
  | missing {name : Text} :
    Completes directories name none (.load name) (.missing ⟨name, directories⟩)

theorem Completes.unique {call : Call} {reply : Reply} {text' : Option Text}
    (h : Completes directories name text call reply)
    (h' : Completes directories other text' call reply) : name = other ∧ text = text' := by
  cases h <;> cases h' <;> exact ⟨rfl, rfl⟩

theorem Completes.asksFor {call : Call} {reply : Reply}
    (h : Completes directories name text call reply) : call.AsksFor name := by
  cases h
  · exact Or.inl rfl
  · exact Or.inr rfl
  · exact Or.inr rfl

theorem step_of_find_error {call : Call} {e : ReadError} (hcall : call.AsksFor name)
    (h : r.find tree cwd name = .error e) : r.step cwd tree call = (r, .failed e) := by
  rcases hcall with rfl | rfl
  · simp only [step, h]
  · simp only [step, load, h, Except.map]

theorem step_of_find_ok {call : Call} (hcall : call.AsksFor name)
    (h : r.find tree cwd name = .ok (text, r')) :
    ∃ reply, r.step cwd tree call = (r', reply) ∧
      Completes r'.directories name text call reply := by
  rcases hcall with rfl | rfl
  · exact ⟨_, by simp only [step, h], .find⟩
  · cases text with
    | none => exact ⟨_, by simp only [step, load, h, Except.map], .missing⟩
    | some text => exact ⟨_, by simp only [step, load, h, Except.map], .load⟩

/-- A call for a stub repeats what is remembered of the name, or else it tells what the directories
have at that moment, and that is then remembered for the name; a call that fails leaves the
repository. -/
theorem step_asksFor {call : Call} (hcall : call.AsksFor name) (r : Repository) (tree : Tree) :
    (∃ text reply, r.remembered name = some text ∧ r.step cwd tree call = (r, reply) ∧
        Completes r.directories name text call reply) ∨
      r.remembered name = none ∧
        ((∃ e, r.read tree cwd name = .error e ∧ r.step cwd tree call = (r, .failed e)) ∨
          ∃ text r' reply, r.read tree cwd name = .ok text ∧
            r.step cwd tree call = (r', reply) ∧ r'.directories = r.directories ∧
            Completes r.directories name text call reply ∧
            ∀ other, r'.remembered other =
              if other = name then some text else r.remembered other) := by
  obtain ⟨text, hknown, hfind⟩ | ⟨hnone, ⟨e, hread, hfind⟩ |
    ⟨text, r', hread, hfind, hdirectories, hafter⟩⟩ := find_cases r tree cwd name
  · obtain ⟨reply, hstep, hcompletes⟩ := step_of_find_ok hcall hfind
    exact Or.inl ⟨text, reply, hknown, hstep, hcompletes⟩
  · exact Or.inr ⟨hnone, Or.inl ⟨e, hread, step_of_find_error hcall hfind⟩⟩
  · obtain ⟨reply, hstep, hcompletes⟩ := step_of_find_ok hcall hfind
    rw [hdirectories] at hcompletes
    exact Or.inr ⟨hnone, Or.inr ⟨text, r', reply, hread, hstep, hdirectories, hcompletes, hafter⟩⟩

theorem step_locate (r : Repository) (tree : Tree) (name : Text) :
    (r.step cwd tree (.locate name)).1 = r := by
  simp only [step]
  split <;> rfl

theorem step_locate_iff {place : Option Path} :
    (r.step cwd tree (.locate name)).2 = .place place ↔
      FirstPlace tree cwd r.directories name place := by
  rw [← locateIn_eq_ok_iff, ← locate]
  simp only [step]
  cases r.locate tree cwd name <;> simp

/-- A call that fails leaves no trace. -/
theorem step_failed {call : Call} {e : ReadError} (h : (r.step cwd tree call).2 = .failed e) :
    (r.step cwd tree call).1 = r := by
  rcases call.asksFor_or_locate with ⟨name, hcall⟩ | ⟨name, rfl⟩
  · obtain ⟨text, reply, -, hstep, -⟩ | ⟨-, ⟨e, -, hstep⟩ |
      ⟨text, r', reply, -, hstep, -, hcompletes, -⟩⟩ := step_asksFor hcall r tree
    · rw [hstep]
    · rw [hstep]
    · rw [hstep] at h
      cases h
      cases hcompletes
  · exact step_locate r tree name

/-! ### Rows of calls -/

/-- A call of the row was completed with the text of the stub, or with its absence. -/
def Answered (directories : List Path) (events : List Event) (name : Text) (text : Option Text) :
    Prop :=
  ∃ event ∈ events, Completes directories name text event.1.2 event.2

theorem answered_concat {events : List Event} {call : Call} {reply : Reply} :
    Answered directories (events ++ [((tree, call), reply)]) name text ↔
      Answered directories events name text ∨ Completes directories name text call reply := by
  simp [Answered, or_and_right, exists_or]

/-- The repository remembers what the completed calls answered, and only that. -/
structure Remembers (directories : List Path) (events : List Event) (r : Repository) : Prop where
  same : r.directories = directories
  answered : ∀ name text, r.remembered name = some text ↔ Answered directories events name text

theorem remembers_nil (directories : List Path) : Remembers directories [] { directories } :=
  ⟨rfl, by simp [remembered, Answered]⟩

/-- A call that says nothing new about a stub leaves what is remembered. -/
theorem Remembers.concat {events : List Event} {call : Call} {reply : Reply}
    (h : Remembers directories events r) (tree : Tree)
    (hknown : ∀ name text, Completes directories name text call reply →
      r.remembered name = some text) :
    Remembers directories (events ++ [((tree, call), reply)]) r := by
  refine ⟨h.same, fun name text => ?_⟩
  rw [answered_concat, ← h.answered]
  exact (or_iff_left_of_imp (hknown name text)).symm

theorem Remembers.step {events : List Event} (h : Remembers directories events r) (cwd : Path)
    (tree : Tree) (call : Call) :
    Remembers directories (events ++ [((tree, call), (r.step cwd tree call).2)])
      (r.step cwd tree call).1 := by
  rcases call.asksFor_or_locate with ⟨name, hcall⟩ | ⟨name, rfl⟩
  · obtain ⟨text, reply, hknown, hstep, hcompletes⟩ | ⟨hnone, ⟨e, -, hstep⟩ |
      ⟨text, r', reply, -, hstep, hsame, hcompletes, hafter⟩⟩ :=
      step_asksFor hcall r tree
    · rw [hstep]
      rw [h.same] at hcompletes
      refine h.concat tree fun other text' hother => ?_
      obtain ⟨rfl, rfl⟩ := hcompletes.unique hother
      exact hknown
    · rw [hstep]
      refine h.concat tree fun other text' hother => ?_
      cases hother
    · rw [hstep]
      rw [h.same] at hcompletes
      refine ⟨hsame.trans h.same, fun other text' => ?_⟩
      rw [answered_concat, hafter, ← h.answered]
      split_ifs with heq
      · rw [heq, hnone]
        constructor
        · rintro hsome
          cases hsome
          exact Or.inr hcompletes
        · rintro (hsome | hother)
          · cases hsome
          · rw [(hcompletes.unique hother).2]
      · exact (or_iff_left fun hother => heq (hcompletes.unique hother).1.symm).symm
  · rw [step_locate]
    refine h.concat tree fun other text hother => ?_
    cases hother.asksFor <;> rename_i heq <;> cases heq

theorem Remembers.run {events : List Event} (h : Remembers directories events r) (cwd : Path)
    (calls : List (Tree × Call)) :
    Remembers directories (events ++ (r.run cwd calls).2) (r.run cwd calls).1 := by
  induction calls generalizing events r with
  | nil =>
    rw [Repository.run, List.append_nil]
    exact h
  | cons c rest ih =>
    have hrest := ih (h.step cwd c.1 c.2)
    rw [List.append_assoc, List.singleton_append] at hrest
    exact hrest

theorem run_concat (r : Repository) (cwd : Path) (calls : List (Tree × Call)) (tree : Tree)
    (call : Call) :
    r.run cwd (calls ++ [(tree, call)]) =
      (((r.run cwd calls).1.step cwd tree call).1,
        (r.run cwd calls).2 ++ [((tree, call), ((r.run cwd calls).1.step cwd tree call).2)]) := by
  induction calls generalizing r with
  | nil => rfl
  | cons c rest ih =>
    have hrest := ih (r.step cwd c.1 c.2).1
    simp only [List.cons_append, run, hrest]

/-- In a row of calls from a repository that remembers nothing, whatever call comes next: when it
wants a stub that an earlier call was told the text or the absence of, it is told the same; when no
earlier call was, it is told what the earliest directory with a file of that name has at that
moment, or that there is none; if it fails, the repository is left as it was; and a call to locate
a stub is told where it is at that moment. -/
theorem answers_repeat_first (directories : List Path) (cwd : Path) (calls : List (Tree × Call))
    (tree : Tree) :
    let (last, events) := ({ directories } : Repository).run cwd calls
    (∀ call, (({ directories } : Repository).run cwd (calls ++ [(tree, call)])).2 =
        events ++ [((tree, call), (last.step cwd tree call).2)]) ∧
      (∀ name text, Answered directories events name text → ∀ call, call.AsksFor name →
        Completes directories name text call (last.step cwd tree call).2) ∧
      (∀ name, (∀ text, ¬Answered directories events name text) → ∀ call, call.AsksFor name →
        ∀ text, Completes directories name text call (last.step cwd tree call).2 ↔
          FirstText tree cwd directories name text) ∧
      (∀ call e, (last.step cwd tree call).2 = .failed e → (last.step cwd tree call).1 = last) ∧
      ∀ name place, (last.step cwd tree (.locate name)).2 = .place place ↔
        FirstPlace tree cwd directories name place := by
  have hremembers := (remembers_nil directories).run cwd calls
  rw [List.nil_append] at hremembers
  have hconcat := run_concat { directories } cwd calls tree
  generalize ({ directories } : Repository).run cwd calls = outcome at *
  obtain ⟨last, events⟩ := outcome
  refine ⟨fun call => by rw [hconcat], ?again, ?first, fun call e => step_failed, ?place⟩
  case again =>
    intro name text hanswered call hcall
    have hknown := (hremembers.answered name text).mpr hanswered
    obtain ⟨text', reply, hknown', hstep, hcompletes⟩ | ⟨hnone, -⟩ := step_asksFor hcall last tree
    · rw [hknown] at hknown'
      obtain rfl := Option.some.inj hknown'
      rw [hstep, ← hremembers.same]
      exact hcompletes
    · rw [hnone] at hknown
      cases hknown
  case first =>
    intro name hnew call hcall text
    rw [← hremembers.same, ← read_eq_ok_iff]
    obtain ⟨text', -, hknown, -⟩ | ⟨-, ⟨e, hread, hstep⟩ |
      ⟨text', r', reply, hread, hstep, -, hcompletes, -⟩⟩ := step_asksFor hcall last tree
    · exact absurd ((hremembers.answered name text').mp hknown) (hnew text')
    · rw [hread, hstep]
      exact iff_of_false (fun h => by cases h) (fun h => by cases h)
    · rw [hread, hstep]
      refine ⟨fun h => ?_, fun h => ?_⟩
      · rw [(hcompletes.unique h).2]
      · rw [← Except.ok.inj h]
        exact hcompletes
  case place =>
    intro name place
    rw [step_locate_iff, hremembers.same]

/-- A directory with one stub in it. -/
def oneStub (content : Bytes) : Tree :=
  ⟨[(["stubs"], .directory), (["stubs", "data.class.stub"], .file content)]⟩

/-- A stub is unreadable at first, then it is read, and then it changes. -/
def changingStub : List (Tree × Call) :=
  [(oneStub [0xff], .find "data.class.stub"), (oneStub (utf8 "old"), .find "data.class.stub"),
    (oneStub (utf8 "new"), .load "data.class.stub")]

theorem changingStub_repeats :
    let (last, events) := ({ directories := [.ofText "stubs"] } : Repository).run
      plainSite.cwd changingStub
    Answered [.ofText "stubs"] events "data.class.stub" (some "old") ∧
      Call.AsksFor "data.class.stub" (.load "data.class.stub") ∧
      Completes [.ofText "stubs"] "data.class.stub" (some "old") (.load "data.class.stub")
        (last.step plainSite.cwd ⟨[]⟩ (.load "data.class.stub")).2 := by
  have hanswered : Answered [.ofText "stubs"] (({ directories := [.ofText "stubs"] } :
      Repository).run plainSite.cwd changingStub).2 "data.class.stub" (some "old") := by
    refine ⟨((oneStub (utf8 "old"), .find "data.class.stub"), .found (some "old")), ?_, .find⟩
    decide +kernel
  have hcall : Call.AsksFor "data.class.stub" (.load "data.class.stub") := Or.inr rfl
  obtain ⟨-, hagain, -⟩ := answers_repeat_first [.ofText "stubs"] plainSite.cwd changingStub ⟨[]⟩
  exact ⟨hanswered, hcall, hagain _ _ hanswered _ hcall⟩

end Repository

end ApiScaffold.Stub
