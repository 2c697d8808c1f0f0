import ApiScaffold.Proofs.NameCharacters
import ApiScaffold.Proofs.Rendering
import ApiScaffold.Proofs.Storing

/-!
# Stubs among files that are being written

A generation looks stubs up among the files that it has written so far. No file that it writes
is a stub, since the endings differ. The directories that it makes can only matter to a lookup
that goes through one of them and up again: where nothing was, such a lookup now comes to
whatever is beside the new directory. Without one, a stub reads as it did at the start, unless
a lookup that came to an early end before now meets a name that is too long.
-/
namespace ApiScaffold

open Text

namespace Text

theorem splitOn_of_not_mem {sep : Char} {t : Text} (h : sep ∉ t) : splitOn sep t = [t] := by
  induction t with
  | nil => rfl
  | cons c cs ih =>
    have hc : c ≠ sep := fun heq => h (heq ▸ List.mem_cons_self)
    have hcs : sep ∉ cs := fun hmem => h (List.mem_cons_of_mem c hmem)
    rw [splitOn, if_neg hc, ih hcs]

/-- The last piece keeps an ending that has no separator. -/
theorem splitOn_append {sep : Char} {ending : Text} (h : sep ∉ ending) (t : Text) :
    ∃ front piece, splitOn sep (t ++ ending) = front ++ [piece ++ ending] := by
  induction t with
  | nil => exact ⟨[], [], splitOn_of_not_mem h⟩
  | cons c cs ih =>
    obtain ⟨front, piece, hsplit⟩ := ih
    rw [List.cons_append, splitOn, hsplit]
    by_cases hc : c = sep
    · exact ⟨[] :: front, piece, by rw [if_pos hc]; rfl⟩
    · rw [if_neg hc]
      cases front with
      | nil => exact ⟨[], c :: piece, rfl⟩
      | cons first front => exact ⟨(c :: first) :: front, piece, rfl⟩

end Text

namespace Path

/-- A path ends as its text does, if the ending has no slash and is no single dot. -/
theorem ofText_getLast? (t ending : Text) (hslash : '/' ∉ ending) (hlong : 2 ≤ ending.length) :
    ∃ piece, (ofText (t ++ ending)).parts.getLast? = some (piece ++ ending) := by
  obtain ⟨front, piece, hsplit⟩ := splitOn_append hslash t
  refine ⟨piece, ?_⟩
  have hlength : 2 ≤ (piece ++ ending).length := by
    rw [List.length_append]
    omega
  have hkept : [piece ++ ending].filter (fun part => part ≠ [] && part ≠ ['.']) =
      [piece ++ ending] := by
    refine List.filter_eq_self.mpr fun part hpart => ?_
    rw [List.mem_singleton.mp hpart, Bool.and_eq_true, decide_eq_true_eq, decide_eq_true_eq]
    constructor <;> (intro heq; rw [heq] at hlength; simp at hlength)
  unfold ofText
  simp only [hsplit, List.filter_append]
  rw [hkept, List.getLast?_concat]

theorem append_getLast? {p q : Path} {last : Text} (h : q.parts.getLast? = some last) :
    (p.append q).parts.getLast? = some last := by
  unfold append
  split_ifs
  · exact h
  · rw [List.getLast?_append, h]
    rfl

end Path

/-- The last name of a path has an ending. -/
def Path.EndsIn (p : Path) (ending : Text) : Prop :=
  ∃ piece, p.parts.getLast? = some (piece ++ ending)

theorem Job.path_endsIn (s : Settings) (directory : Path) (job : Job) :
    (directory.append (.ofText (job.path s))).EndsIn ".php" := by
  have hpath : ∃ front, job.path s = front ++ (".php" : Text) := by
    cases job with
    | controller c e =>
      refine ⟨stripChar '/' s.appPath ++ "/" ++ ("Http/Controllers" ++ "/" ++
        (ClassNames.folder c.space ++ c.className)), ?_⟩
      rw [path, ControllerFile.path, ClassNames.controllerPath_eq]
      simp only [List.append_assoc]
    | data e =>
      refine ⟨stripChar '/' s.appPath ++ "/" ++ ("Data" ++ "/" ++
        ClassNames.dataClass e.name), ?_⟩
      rw [path, DataFile.path, ClassNames.dataPath_eq]
      simp only [List.append_assoc]
  obtain ⟨front, hfront⟩ := hpath
  obtain ⟨piece, hlast⟩ := Path.ofText_getLast? front ".php" (by decide) (by decide)
  exact ⟨piece, Path.append_getLast? (hfront ▸ hlast)⟩

theorem Job.stub_endsIn {s : Settings} {job : Job} {name : Text} (h : name ∈ job.stubNames s)
    (cwd dir : Path) : (cwd.append (dir.append (.ofText name))).EndsIn ".stub" := by
  have hname : ∃ front, name = front ++ (".stub" : Text) := by
    cases job with
    | controller c e =>
      rcases List.mem_cons.mp h with rfl | h
      · exact ⟨"api-controller.class", by decide⟩
      · obtain ⟨verb, -, rfl⟩ := List.mem_map.mp h
        exact ⟨_, rfl⟩
    | data e =>
      rw [List.mem_singleton.mp h]
      exact ⟨"data.class", by decide⟩
  obtain ⟨front, hfront⟩ := hname
  obtain ⟨piece, hlast⟩ := Path.ofText_getLast? front ".stub" (by decide) (by decide)
  exact ⟨piece, Path.append_getLast? (Path.append_getLast? (hfront ▸ hlast))⟩

/-- A file is never put where a stub is looked for. -/
theorem place_ne_of_endsIn {p q : Path} (hp : p.EndsIn ".php") (hq : q.EndsIn ".stub") :
    p.place ≠ q.place := by
  obtain ⟨x, hx⟩ := hp
  obtain ⟨y, hy⟩ := hq
  have hxup : x ++ (".php" : Text) ≠ (".." : Text) := fun heq => by
    have hlast := congrArg List.getLast? heq
    simp [List.getLast?_append] at hlast
  have hyup : y ++ (".stub" : Text) ≠ (".." : Text) := fun heq => by
    have hlast := congrArg List.getLast? heq
    simp [List.getLast?_append] at hlast
  intro heq
  have hplaces := congrArg List.getLast? heq
  rw [Path.place, Path.place, Tree.getLast?_reached hx hxup, Tree.getLast?_reached hy hyup]
    at hplaces
  have hlast := congrArg (fun name => name.bind List.getLast?) hplaces
  simp [List.getLast?_append] at hlast

namespace Tree

/-- Whatever is not the root is in a directory. -/
def Rooted (t : Tree) : Prop := ∀ l, t.find? l ≠ none → t.find? l.dropLast = some .directory

theorem Rooted.none_below {t : Tree} (h : t.Rooted) {l : Location} (hl : t.find? l = none)
    (rest : List Text) : t.find? (l ++ rest) = none := by
  induction rest generalizing l with
  | nil => rwa [List.append_nil]
  | cons part rest ih =>
    have hnext : t.find? (l ++ [part]) = none := by
      by_contra hno
      have hup := h _ hno
      rw [List.dropLast_concat, hl] at hup
      cases hup
    rw [← List.singleton_append, ← List.append_assoc]
    exact ih hnext

theorem rooted_of_entries {t : Tree}
    (h : ∀ e ∈ t.entries, t.find? e.1.dropLast = some .directory) : t.Rooted := by
  intro l hl
  by_cases hnil : l = []
  · rw [hnil, List.dropLast_nil, find?_root]
  · rw [find?_of_ne_nil hnil] at hl
    obtain ⟨node, hnode⟩ := Option.ne_none_iff_exists'.mp hl
    obtain ⟨e, he, -⟩ := Option.map_eq_some_iff.mp hnode
    have heq : e.1 = l := by simpa using List.find?_some he
    rw [← heq]
    exact h e (List.mem_of_find?_eq_some he)

end Tree

/-- How the answer about a place may change for one who looks for a file there. -/
inductive Keeps : Except SystemError Node → Except SystemError Node → Prop
  | same (answer) : Keeps answer answer
  | tooLong (answer) : Keeps answer (.error .nameTooLong)
  | blocked : Keeps (.error .notFound) (.error .notDirectory)
  | opened : Keeps (.error .notFound) (.ok .directory)

namespace Written

open ApiScaffold.Tree

variable {base t : Tree} {ws : List Write} {here : Location} {parts : List Text}

theorem find?_of_no_place (h : Written base ws t) {l : Location}
    (hl : ∀ w ∈ ws, w.path.place ≠ l) :
    t.find? l = (base.find? l).or
      (if ∃ w ∈ ws, l ∈ w.path.way then some .directory else none) := by
  rw [h.contents, afterWrites, lastAt_eq_none hl]

/-- Files of the base are files still, whatever they hold. -/
theorem file (h : Written base ws t) {l : Location} {content : Bytes}
    (hl : base.find? l = some (.file content)) :
    ∃ content', t.find? l = some (.file content') := by
  rw [h.contents, afterWrites]
  cases lastAt ws l with
  | none => exact ⟨content, by rw [hl]; rfl⟩
  | some content' => exact ⟨content', rfl⟩

/-- A new directory is on the way of a file. -/
theorem way_of_opened (h : Written base ws t) {l : Location} (hb : base.find? l = none)
    (ht : t.find? l = some .directory) : ∃ w ∈ ws, l ∈ w.path.way := by
  rw [h.contents, afterWrites, hb] at ht
  cases hlast : lastAt ws l with
  | some content => rw [hlast] at ht; cases ht
  | none =>
    rw [hlast] at ht
    by_contra hno
    rw [if_neg hno] at ht
    cases ht

/-- At a place of no file a lookup finds what was there, or a directory where nothing was. -/
theorem keeps_here (h : Written base ws t) (hplace : ∀ w ∈ ws, w.path.place ≠ here) :
    Keeps (base.lookFrom here []) (t.lookFrom here []) := by
  simp only [lookFrom, walk_nil, h.find?_of_no_place hplace]
  cases base.find? here with
  | some node => exact .same _
  | none =>
    split_ifs
    · exact .opened
    · exact .same _

theorem lookFrom_error_of_walk {e : SystemError} (h : t.walk here parts = .error e) :
    t.lookFrom here parts = .error e := by
  rw [lookFrom, h]

/-- Below a place where nothing was, a lookup that does not go up finds no file. -/
theorem keeps_below (h : Written base ws t) (hrooted : base.Rooted)
    (hb : base.find? here = none) (hup : (".." : Text) ∉ parts)
    (hplace : ∀ w ∈ ws, w.path.place ≠ reached here parts) :
    Keeps (.error .notFound) (t.lookFrom here parts) := by
  rw [reached_eq_append hup] at hplace
  cases hw : t.walk here parts with
  | error e =>
    rw [lookFrom_error_of_walk hw]
    rcases walk_error hw with rfl | rfl | rfl
    · exact .same _
    · exact .blocked
    · exact .tooLong _
  | ok loc =>
    obtain ⟨rfl, -⟩ := walk_ok hw
    rw [reached_eq_append hup] at hw
    simp only [lookFrom, hw, h.find?_of_no_place hplace, hrooted.none_below hb, Option.none_or]
    split_ifs
    · exact .opened
    · exact .same _

/-- A lookup keeps its answer if it does not go up from a directory that was made. -/
theorem keeps_lookFrom (h : Written base ws t) (hrooted : base.Rooted)
    (hplace : ∀ w ∈ ws, w.path.place ≠ reached here parts)
    (hup : ∀ front rest, parts = front ++ rest → base.find? (reached here front) = none →
      (∃ w ∈ ws, reached here front ∈ w.path.way) → (".." : Text) ∉ rest) :
    Keeps (base.lookFrom here parts) (t.lookFrom here parts) := by
  induction parts generalizing here with
  | nil => exact h.keeps_here hplace
  | cons part rest ih =>
    cases hb : base.find? here with
    | none =>
      rw [lookFrom_error_of_walk (walk_absent hb)]
      cases ht : t.find? here with
      | none => rw [lookFrom_error_of_walk (walk_absent ht)]; exact .same _
      | some node =>
        cases node with
        | file content => rw [lookFrom_error_of_walk (walk_file ht)]; exact .blocked
        | directory =>
          exact h.keeps_below hrooted hb (hup [] _ rfl hb (h.way_of_opened hb ht)) hplace
    | some node =>
      cases node with
      | file content =>
        obtain ⟨content', ht⟩ := h.file hb
        rw [lookFrom_error_of_walk (walk_file hb), lookFrom_error_of_walk (walk_file ht)]
        exact .same _
      | directory =>
        have ht := h.directory hb
        simp only [lookFrom, walk_directory hb, walk_directory ht]
        by_cases hlong : part ≠ (".." : Text) ∧ nameLimit < (utf8 part).length
        · rw [if_pos hlong, if_pos hlong]
          exact .same _
        · rw [if_neg hlong, if_neg hlong]
          refine ih hplace fun front rest' hrest => ?_
          exact hup (part :: front) rest' (by rw [hrest, List.cons_append])

end Written

/-- The lookup of a path never goes up from a directory that storing some files would make. -/
def Tree.StaysOut (t : Tree) (files : List Path) (p : Path) : Prop :=
  ∀ front rest, p.parts = front ++ rest → t.find? (Tree.reached [] front) = none →
    (∃ f ∈ files, Tree.reached [] front ∈ f.way) → (".." : Text) ∉ rest

namespace Tree

variable {base t : Tree} {ws : List Write} {files : List Path} {p : Path}

theorem keeps_stat (h : Written base ws t) (hrooted : base.Rooted)
    (hfiles : ∀ w ∈ ws, w.path ∈ files) (hplace : ∀ f ∈ files, f.place ≠ p.place)
    (hout : base.StaysOut files p) : Keeps (base.stat p) (t.stat p) := by
  rw [stat_eq, stat_eq]
  split_ifs
  · exact .same _
  · refine h.keeps_lookFrom hrooted (fun w hw => hplace _ (hfiles w hw)) ?_
    intro front rest hparts hnone ⟨w, hw, hmem⟩
    exact hout front rest hparts hnone ⟨w.path, hfiles w hw, hmem⟩

/-- A path is a file as before and reads the same, unless asking fails. -/
theorem isFile_of_keeps (h : Keeps (base.stat p) (t.stat p)) :
    (∃ e, t.isFile p = .error e) ∨
      t.isFile p = base.isFile p ∧ (base.isFile p = .ok true → t.readFile p = base.readFile p) := by
  unfold isFile readFile
  generalize base.stat p = before, t.stat p = after at h
  cases h with
  | same => exact Or.inr ⟨rfl, fun _ => rfl⟩
  | tooLong => exact Or.inl ⟨_, rfl⟩
  | blocked => exact Or.inr ⟨rfl, fun h => by cases h⟩
  | opened => exact Or.inr ⟨rfl, fun h => by cases h⟩

end Tree

namespace Stub.Repository

variable {base t : Tree} {cwd : Path} {name : Text}

theorem locateIn_of_keeps {dirs : List Path}
    (h : ∀ dir ∈ dirs, Keeps (base.stat (cwd.append (dir.append (.ofText name))))
      (t.stat (cwd.append (dir.append (.ofText name))))) :
    (∃ e, locateIn t cwd name dirs = .error e) ∨
      locateIn t cwd name dirs = locateIn base cwd name dirs ∧
        ∀ found, locateIn base cwd name dirs = .ok (some found) →
          t.readFile (cwd.append found) = base.readFile (cwd.append found) := by
  induction dirs with
  | nil => exact Or.inr ⟨rfl, fun found hfound => by cases hfound⟩
  | cons dir rest ih =>
    have hrest := ih fun d hd => h d (List.mem_cons_of_mem dir hd)
    simp only [locateIn]
    rcases Tree.isFile_of_keeps (h dir List.mem_cons_self) with ⟨e, he⟩ | ⟨hsame, hread⟩
    · exact Or.inl ⟨e, by rw [he]⟩
    rw [hsame]
    cases hf : base.isFile (cwd.append (dir.append (.ofText name))) with
    | error e => exact Or.inl ⟨e, rfl⟩
    | ok there =>
      cases there with
      | false => exact hrest
      | true =>
        refine Or.inr ⟨rfl, fun found hfound => ?_⟩
        cases hfound
        exact hread hf

/-- A stub reads as before, unless the system fails. -/
theorem read_of_keeps {r : Repository}
    (h : ∀ dir ∈ r.directories, Keeps (base.stat (cwd.append (dir.append (.ofText name))))
      (t.stat (cwd.append (dir.append (.ofText name))))) :
    r.read t cwd name = r.read base cwd name ∨
      ∃ e, r.read t cwd name = .error (.system e) := by
  unfold read locate
  rcases locateIn_of_keeps h with ⟨e, he⟩ | ⟨hsame, hread⟩
  · exact Or.inr ⟨e, by rw [he]⟩
  · left
    rw [hsame]
    cases hl : locateIn base cwd name r.directories with
    | error e => rfl
    | ok found =>
      cases found with
      | none => rfl
      | some found => simp only [hread found hl]

end Stub.Repository

end ApiScaffold
