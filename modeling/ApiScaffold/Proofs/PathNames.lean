import ApiScaffold.Proofs.JobProgress
import Mathlib.Data.List.Induction

/-!
# The names of the paths of files

The text of a path is a row of texts with slashes between them, and its names are theirs in
order, so slashes at the ends of a part make no difference. The paths of generated files are
read in this way: first the names of the path of the application, then those of the directory,
and the name of the file last. A path is absolute only if nothing but slashes is left of the
path of the application.
-/
namespace ApiScaffold

open Text

theorem Text.splitOn_append_cons (sep : Char) (front rest : Text) :
    splitOn sep (front ++ sep :: rest) = splitOn sep front ++ splitOn sep rest := by
  induction front with
  | nil => simp [splitOn]
  | cons c cs ih =>
    rw [List.cons_append, splitOn, splitOn, ih]
    by_cases hc : c = sep
    · rw [if_pos hc, if_pos hc, List.cons_append]
    · rw [if_neg hc, if_neg hc]
      obtain ⟨piece, pieces, hsplit⟩ := List.exists_cons_of_ne_nil (splitOn_ne_nil sep cs)
      simp only [hsplit, List.cons_append]

namespace Path

@[simp] theorem ofText_nil_parts : (ofText []).parts = [] := rfl

theorem ofText_append_slash (front rest : Text) :
    (ofText (front ++ '/' :: rest)).parts = (ofText front).parts ++ (ofText rest).parts := by
  simp only [ofText, splitOn_append_cons, List.filter_append]

/-- A text without slashes is one name, unless it is empty or a single dot. -/
theorem ofText_name {name : Text} (hslash : '/' ∉ name) (hname : name ≠ [])
    (hdot : name ≠ ['.']) : (ofText name).parts = [name] := by
  unfold ofText
  simp only [splitOn_of_not_mem hslash]
  exact List.filter_eq_self.mpr (by simp [hname, hdot])

theorem ofText_slash_cons (t : Text) : (ofText ('/' :: t)).parts = (ofText t).parts := by
  simpa using ofText_append_slash [] t

theorem ofText_concat_slash (t : Text) : (ofText (t ++ ['/'])).parts = (ofText t).parts := by
  simpa using ofText_append_slash t []

theorem ofText_stripLeft (t : Text) :
    (ofText (stripLeft (· == '/') t)).parts = (ofText t).parts := by
  induction t with
  | nil => rfl
  | cons c cs ih =>
    by_cases hc : c = '/'
    · rw [hc, ofText_slash_cons, ← ih]
      simp [stripLeft]
    · simp [stripLeft, hc]

theorem ofText_stripRight (t : Text) :
    (ofText (stripRight (· == '/') t)).parts = (ofText t).parts := by
  induction t using List.reverseRecOn with
  | nil => rfl
  | append_singleton cs c ih =>
    by_cases hc : c = '/'
    · rw [hc, ofText_concat_slash, ← ih]
      simp [stripRight]
    · simp [stripRight, hc]

/-- Slashes at the ends of a text add no names. -/
theorem ofText_stripChar (t : Text) : (ofText (stripChar '/' t)).parts = (ofText t).parts := by
  rw [stripChar, strip, ofText_stripRight, ofText_stripLeft]

theorem ofText_isAbsolute (t : Text) : (ofText t).isAbsolute = (t.head? == some '/') := by
  unfold isAbsolute ofText
  rcases t with _ | ⟨a, _ | ⟨b, _ | ⟨c, rest⟩⟩⟩
  · rfl
  all_goals
    dsimp only
    split <;> simp_all

end Path

theorem Text.head?_stripChar_ne (c : Char) (t : Text) : (stripChar c t).head? ≠ some c := by
  unfold stripChar strip
  intro h
  have hprefix : stripRight (· == c) (stripLeft (· == c) t) <+: stripLeft (· == c) t := by
    unfold stripRight
    rw [← List.reverse_suffix, List.reverse_reverse]
    exact List.dropWhile_suffix _
  obtain ⟨rest, hrest⟩ := hprefix
  have hhead : (stripLeft (· == c) t).head? = some c := by
    rw [← hrest, List.head?_append, h]
    rfl
  have hno := List.head?_dropWhile_not (· == c) t
  unfold stripLeft at hhead
  rw [hhead] at hno
  simp at hno

namespace ClassNames

/-- A path below the directory of the application is absolute when that directory is the root. -/
theorem appPath_isAbsolute (s : Settings) (rest : Text) :
    (Path.ofText (stripChar '/' s.appPath ++ '/' :: rest)).isAbsolute = true ↔
      stripChar '/' s.appPath = [] := by
  rw [Path.ofText_isAbsolute, List.head?_append]
  cases hstrip : stripChar '/' s.appPath with
  | nil => simp
  | cons c cs =>
    have hne := head?_stripChar_ne '/' s.appPath
    rw [hstrip] at hne
    simpa using hne

theorem fileName_length (cls : Text) : 4 ≤ (cls ++ (".php" : Text)).length := by
  rw [List.length_append]
  exact Nat.le_add_left 4 _

/-- The name of a file of a class is a name. -/
theorem fileName_parts {cls : Text} (hslash : '/' ∉ cls) :
    (Path.ofText (cls ++ ".php")).parts = [cls ++ ".php"] := by
  have hlong := fileName_length cls
  refine Path.ofText_name ?_ ?_ ?_
  · simpa using hslash
  · intro heq
    rw [heq] at hlong
    exact absurd hlong (by decide)
  · intro heq
    rw [heq] at hlong
    exact absurd hlong (by decide)

theorem slash_not_mem_dataClass (name : Text) : '/' ∉ dataClass name :=
  not_mem_studly_append (by decide) _ (by decide)

/-- The names of the path of a data object. -/
theorem dataPath_parts (s : Settings) (name : Text) :
    (Path.ofText (dataPath s name)).parts =
      (Path.ofText s.appPath).parts ++ [("Data" : Text), dataClass name ++ ".php"] := by
  have heq : dataPath s name =
      stripChar '/' s.appPath ++ '/' :: ("Data" ++ '/' :: (dataClass name ++ ".php")) := by
    rw [dataPath_eq, List.append_assoc]
    rfl
  rw [heq, Path.ofText_append_slash, Path.ofText_append_slash, Path.ofText_stripChar,
    fileName_parts (slash_not_mem_dataClass name)]
  rfl

/-- The names that the parts of a namespace come to in a path. -/
def spaceNames (space : Text) : List Text :=
  ((splitOn '\\' space).filter (· ≠ [])).flatMap fun part => (Path.ofText part).parts

theorem folder_parts (space rest : Text) :
    (Path.ofText (folder space ++ rest)).parts = spaceNames space ++ (Path.ofText rest).parts := by
  unfold folder spaceNames
  induction (splitOn '\\' space).filter (· ≠ []) with
  | nil => rfl
  | cons part parts ih =>
    have heq : (part :: parts).flatMap (· ++ ("/" : Text)) ++ rest =
        part ++ '/' :: (parts.flatMap (· ++ ("/" : Text)) ++ rest) := by simp
    rw [heq, Path.ofText_append_slash, ih, List.flatMap_cons, List.append_assoc]

/-- The names of the path of a controller. -/
theorem controllerPath_parts (s : Settings) (space : Text) {cls : Text} (hslash : '/' ∉ cls) :
    (Path.ofText (controllerPath s space cls)).parts =
      (Path.ofText s.appPath).parts ++
        (("Http" : Text) :: "Controllers" :: (spaceNames space ++ [cls ++ ".php"])) := by
  have heq : controllerPath s space cls = stripChar '/' s.appPath ++ '/' ::
      ("Http/Controllers" ++ '/' :: (folder space ++ (cls ++ ".php"))) := by
    rw [controllerPath_eq]
    simp only [List.append_assoc]
    rfl
  rw [heq, Path.ofText_append_slash, Path.ofText_append_slash, Path.ofText_stripChar,
    folder_parts, fileName_parts hslash]
  rfl

end ClassNames

namespace Job

/-- The path of a file is absolute only if the application has the root for its directory. -/
theorem path_isAbsolute (s : Settings) (job : Job) :
    (Path.ofText (job.path s)).isAbsolute = true ↔ stripChar '/' s.appPath = [] := by
  cases job with
  | controller c e =>
    rw [path, ControllerFile.path, ClassNames.controllerPath_eq, List.append_assoc]
    exact ClassNames.appPath_isAbsolute s _
  | data e =>
    rw [path, DataFile.path, ClassNames.dataPath_eq, List.append_assoc]
    exact ClassNames.appPath_isAbsolute s _

/-- The name of the file of a job. -/
def fileName : Job → Text
  | controller c _ => c.className ++ ".php"
  | data e => ClassNames.dataClass e.name ++ ".php"

/-- The names of the directories that a job puts its file in, below that of the application. -/
def folderNames : Job → List Text
  | controller c _ => "Http" :: "Controllers" :: ClassNames.spaceNames c.space
  | data _ => ["Data"]

theorem path_parts (s : Settings) (job : Job) :
    (Path.ofText (job.path s)).parts =
      (Path.ofText s.appPath).parts ++ (job.folderNames ++ [job.fileName]) := by
  cases job with
  | controller c e => exact ClassNames.controllerPath_parts s c.space c.slash_not_mem_className
  | data e => exact ClassNames.dataPath_parts s e.name

theorem fileName_ne_up (job : Job) : job.fileName ≠ (".." : Text) := by
  have hlong : 4 ≤ job.fileName.length := by
    cases job <;> exact ClassNames.fileName_length _
  intro heq
  rw [heq] at hlong
  exact absurd hlong (by decide)

/-- The file of a job is found under its own name. -/
theorem place_getLast? (directory : Path) (s : Settings) (job : Job) :
    (job.target directory s).place.getLast? = some job.fileName := by
  refine Tree.getLast?_reached ?_ job.fileName_ne_up
  refine Path.append_getLast? ?_
  rw [path_parts, ← List.append_assoc, List.getLast?_concat]

end Job

end ApiScaffold
