import ApiScaffold.Files.Tree
import Mathlib.Data.List.Basic

/-!
# Walks through a tree

A path leads through a row of locations to its place. The row depends on the names of the path
alone; the tree decides only how far a walk comes, since each location that it passes has to be
a directory. A location is compared by its names from the root, so a walk that goes up again
may pass one location twice.
-/
namespace ApiScaffold

open Text

namespace Tree

/-- The location after one more name. -/
def next (here : Location) (part : Text) : Location :=
  if part = ("..": Text) then here.dropLast else here ++ [part]

/-- The location that names lead to, whatever is there. -/
def reached (here : Location) (parts : List Text) : Location := parts.foldl next here

/-- The locations that names lead through, the last one apart. -/
def passed : Location → List Text → List Location
  | _, [] => []
  | here, part :: rest => here :: passed (next here part) rest

@[simp] theorem next_up (here : Location) : next here ".." = here.dropLast := if_pos rfl

theorem next_of_ne {part : Text} (h : part ≠ "..") (here : Location) :
    next here part = here ++ [part] := if_neg h

@[simp] theorem reached_nil (here : Location) : reached here [] = here := rfl

@[simp] theorem reached_cons (here : Location) (part : Text) (rest : List Text) :
    reached here (part :: rest) = reached (next here part) rest := rfl

theorem reached_append (here : Location) (front rest : List Text) :
    reached here (front ++ rest) = reached (reached here front) rest := List.foldl_append

theorem passed_append (here : Location) (front rest : List Text) :
    passed here (front ++ rest) = passed here front ++ passed (reached here front) rest := by
  induction front generalizing here with
  | nil => rfl
  | cons part front ih => simp only [List.cons_append, passed, reached_cons, ih]

/-- Names without double dots lead straight down. -/
theorem reached_eq_append {here : Location} {parts : List Text} (h : (".." : Text) ∉ parts) :
    reached here parts = here ++ parts := by
  induction parts generalizing here with
  | nil => simp
  | cons part rest ih =>
    have hpart : part ≠ (".." : Text) := fun heq => h (heq ▸ List.mem_cons_self)
    have hrest : (".." : Text) ∉ rest := fun hmem => h (List.mem_cons_of_mem _ hmem)
    rw [reached_cons, ih hrest, next_of_ne hpart, List.append_assoc, List.singleton_append]

/-- The last name of a path is that of its place, unless it leads up. -/
theorem getLast?_reached {here : Location} {parts : List Text} {last : Text}
    (hlast : parts.getLast? = some last) (hup : last ≠ (".." : Text)) :
    (reached here parts).getLast? = some last := by
  obtain ⟨front, rfl⟩ := List.getLast?_eq_some_iff.mp hlast
  rw [reached_append, reached_cons, reached_nil, next_of_ne hup, List.getLast?_concat]

section
variable {t : Tree} {here loc : Location} {part : Text} {parts rest : List Text}

@[simp] theorem walk_nil : t.walk here [] = .ok here := by
  simp only [walk]

theorem walk_absent (h : t.find? here = none) : t.walk here (part :: rest) = .error .notFound := by
  simp only [walk, h]

theorem walk_file {content : Bytes} (h : t.find? here = some (.file content)) :
    t.walk here (part :: rest) = .error .notDirectory := by
  simp only [walk, h]

/-- From a directory a walk goes on, unless the next name is too long. -/
theorem walk_directory (h : t.find? here = some .directory) :
    t.walk here (part :: rest) =
      if part ≠ (".." : Text) ∧ nameLimit < (utf8 part).length then .error .nameTooLong
      else t.walk (next here part) rest := by
  simp only [walk, h]
  by_cases hup : part = (".." : Text)
  · rw [if_pos hup, if_neg fun hlong => hlong.1 hup, hup, next_up]
  · rw [if_neg hup, next_of_ne hup]
    by_cases hlong : nameLimit < (utf8 part).length
    · rw [if_pos hlong, if_pos ⟨hup, hlong⟩]
    · rw [if_neg hlong, if_neg fun h => hlong h.2]

/-- A walk that comes to its end has passed directories only. -/
theorem walk_ok (h : t.walk here parts = .ok loc) :
    loc = reached here parts ∧ ∀ l ∈ passed here parts, t.find? l = some .directory := by
  induction parts generalizing here with
  | nil =>
    rw [walk_nil] at h
    cases h
    exact ⟨rfl, by simp [passed]⟩
  | cons part rest ih =>
    cases hhere : t.find? here with
    | none => rw [walk_absent hhere] at h; cases h
    | some node =>
      cases node with
      | file content => rw [walk_file hhere] at h; cases h
      | directory =>
        rw [walk_directory hhere] at h
        split_ifs at h with hlong
        obtain ⟨hloc, hpassed⟩ := ih h
        refine ⟨hloc, fun l hl => ?_⟩
        rcases List.mem_cons.mp hl with rfl | hl
        · exact hhere
        · exact hpassed l hl

theorem walk_error {e : SystemError} (h : t.walk here parts = .error e) :
    e = .notFound ∨ e = .notDirectory ∨ e = .nameTooLong := by
  induction parts generalizing here with
  | nil => rw [walk_nil] at h; cases h
  | cons part rest ih =>
    cases hhere : t.find? here with
    | none => rw [walk_absent hhere] at h; cases h; exact Or.inl rfl
    | some node =>
      cases node with
      | file content => rw [walk_file hhere] at h; cases h; exact Or.inr (Or.inl rfl)
      | directory =>
        rw [walk_directory hhere] at h
        split_ifs at h
        · cases h
          exact Or.inr (Or.inr rfl)
        · exact ih h

end

@[simp] theorem find?_root (t : Tree) : t.find? [] = some .directory := if_pos rfl

theorem find?_of_ne_nil {l : Location} (h : l ≠ []) (t : Tree) :
    t.find? l = (t.entries.find? fun e => e.1 = l).map (·.2) := if_neg h

theorem find?_replaced {entries : List (Location × Node)} {loc l : Location} {node : Node} :
    ((entries.map fun e => if e.1 = loc then (loc, node) else e).find? fun e => e.1 = l).map
        (·.2) =
      (entries.find? fun e => e.1 = l).map fun e => if l = loc then node else e.2 := by
  induction entries with
  | nil => rfl
  | cons e rest ih =>
    by_cases heq : e.1 = l
    · by_cases hloc : l = loc <;> simp [heq, hloc]
    · by_cases hloc : e.1 = loc
      · have hne : loc ≠ l := fun h => heq (hloc.trans h)
        simpa [hloc, hne] using ih
      · simpa [heq, hloc] using ih

/-- Setting a node changes what is at its location and nothing else. -/
theorem find?_set {t : Tree} {loc : Location} (hloc : loc ≠ []) (node : Node) (l : Location) :
    (t.set loc node).find? l = if l = loc then some node else t.find? l := by
  by_cases hl : l = []
  · rw [hl, find?_root, find?_root, if_neg hloc.symm]
  rw [find?_of_ne_nil hl, find?_of_ne_nil hl]
  unfold set
  by_cases hany : t.entries.any fun e => e.1 = loc
  · rw [if_pos hany, find?_replaced]
    by_cases heq : l = loc
    · obtain ⟨e, he⟩ := Option.isSome_iff_exists.mp
        (List.find?_isSome.mpr (List.any_eq_true.mp hany))
      simp only [heq, he, if_true, Option.map_some]
    · simp only [if_neg heq]
  · rw [if_neg hany, List.find?_append]
    have hnone : (t.entries.find? fun e => e.1 = loc) = none :=
      List.find?_eq_none.mpr fun e he heq => hany (List.any_eq_true.mpr ⟨e, he, heq⟩)
    by_cases heq : l = loc
    · simp [heq, hnone]
    · simp [heq, Ne.symm heq]

end Tree

namespace Path

/-- Where a path leads, whatever is there. -/
def place (p : Path) : Location := Tree.reached [] p.parts

/-- The locations that have to be directories for a path to lead to its place. -/
def way (p : Path) : List Location := Tree.passed [] p.parts

/-- The way and the place of a path. -/
def trail (p : Path) : List Location := p.way ++ [p.place]

theorem mem_trail {p : Path} {l : Location} : l ∈ p.trail ↔ l ∈ p.way ∨ l = p.place := by
  simp [trail]

theorem way_eq_trail_parent {p : Path} (h : p.parts ≠ []) : p.way = p.parent.trail := by
  obtain ⟨front, last, hparts⟩ := (List.eq_nil_or_concat p.parts).resolve_left h
  rw [List.concat_eq_append] at hparts
  simp only [way, trail, place, parent, hparts, List.dropLast_concat, Tree.passed_append,
    Tree.passed]

theorem trail_parent_subset (p : Path) : p.parent.trail ⊆ p.trail := by
  by_cases h : p.parts = []
  · intro l hl
    simpa [trail, way, place, parent, h] using hl
  · rw [← way_eq_trail_parent h]
    exact List.subset_append_left _ _

end Path

namespace Tree

variable {t : Tree} {p : Path}

theorem locate_ok {loc : Location} (h : t.locate p = .ok loc) :
    loc = p.place ∧ ∀ l ∈ p.way, t.find? l = some .directory := by
  unfold locate at h
  split_ifs at h
  exact walk_ok h

/-- What is found at the end of a walk. -/
def lookFrom (t : Tree) (here : Location) (parts : List Text) : Except SystemError Node :=
  match t.walk here parts with
  | .error e => .error e
  | .ok loc =>
    match t.find? loc with
    | some node => .ok node
    | none => .error .notFound

theorem stat_eq (t : Tree) (p : Path) :
    t.stat p =
      if p.parts.any (·.contains '\x00') then .error .embeddedNul else t.lookFrom [] p.parts := by
  unfold stat locate lookFrom
  split_ifs <;> rfl

theorem stat_ok {node : Node} (h : t.stat p = .ok node) :
    t.find? p.place = some node ∧ ∀ l ∈ p.way, t.find? l = some .directory := by
  unfold stat at h
  cases hl : t.locate p with
  | error e => rw [hl] at h; cases h
  | ok loc =>
    obtain ⟨rfl, hway⟩ := locate_ok hl
    rw [hl] at h
    cases hf : t.find? p.place with
    | none => simp only [hf] at h; cases h
    | some found =>
      simp only [hf] at h
      cases h
      exact ⟨rfl, hway⟩

end Tree

end ApiScaffold
