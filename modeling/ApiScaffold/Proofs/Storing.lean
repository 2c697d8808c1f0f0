import ApiScaffold.Emitter
import ApiScaffold.Proofs.Walks

/-!
# What storing files does to a tree

Storing a file turns every location on the way to it into a directory and puts the file at its
place; nothing else changes. For files stored one after the other, what a location holds
afterwards is read off the list of them: the last file that was stored there, or what was there
before, or else a directory if a file was stored below.
-/
namespace ApiScaffold

open Text

namespace AtomicWrite

theorem cleanUp_ne_ok {ε : Type} (replies : Replies ε) (isOpen : Bool) (disk disk' : Disk)
    (e : ε) : cleanUp replies isOpen disk e ≠ (disk', .ok ()) := by
  unfold cleanUp
  split
  · simp
  · split_ifs
    · split <;> simp
    · simp

theorem run_ok {ε : Type} {replies : Replies ε} {data : Bytes} {disk disk' : Disk}
    (h : run replies data disk = (disk', .ok ())) :
    replies.replace = .done ∧
      ∃ count, replies.write = .stored count ∧ disk'.target = some (data.take count) := by
  unfold run at h
  split at h
  · cases h
  · simp only at h
    split at h
    · exact absurd h (cleanUp_ne_ok _ _ _ _ _)
    · rename_i count hwrite
      split at h
      · exact absurd h (cleanUp_ne_ok _ _ _ _ _)
      · exact absurd h (cleanUp_ne_ok _ _ _ _ _)
      · exact absurd h (cleanUp_ne_ok _ _ _ _ _)
      · exact absurd h (cleanUp_ne_ok _ _ _ _ _)
      · rename_i hreplace
        cases h
        exact ⟨hreplace, count, hwrite, rfl⟩

end AtomicWrite

namespace Tree

variable {t t₁ t₂ : Tree} {p : Path} {trail trail' : List Location}

/-- A row of locations was opened: where nothing was there is now a directory. -/
structure Opened (t t' : Tree) (trail : List Location) : Prop where
  before : ∀ l ∈ trail, t.find? l = none ∨ t.find? l = some .directory
  after : ∀ l, t'.find? l = if l ∈ trail then some .directory else t.find? l

theorem Opened.trans (h₁ : Opened t t₁ trail) (h₂ : Opened t₁ t₂ trail')
    (hsub : trail ⊆ trail') : Opened t t₂ trail' := by
  constructor
  · intro l hl
    by_cases hmem : l ∈ trail
    · exact h₁.before l hmem
    · have hl₁ := h₁.after l
      rw [if_neg hmem] at hl₁
      rw [← hl₁]
      exact h₂.before l hl
  · intro l
    rw [h₂.after l, h₁.after l]
    by_cases hmem : l ∈ trail
    · rw [if_pos (hsub hmem), if_pos (hsub hmem)]
    · rw [if_neg hmem]

theorem opened_of_directory (h : t.isDirectory p = .ok true) : Opened t t p.trail := by
  have hstat : t.stat p = .ok .directory := by
    unfold isDirectory at h
    cases hs : t.stat p with
    | error e => rw [hs] at h; cases e <;> cases h
    | ok node =>
      rw [hs] at h
      cases node with
      | file content => cases h
      | directory => rfl
  obtain ⟨hplace, hway⟩ := stat_ok hstat
  have hall : ∀ l ∈ p.trail, t.find? l = some .directory := by
    intro l hl
    rcases Path.mem_trail.mp hl with hl | rfl
    · exact hway l hl
    · exact hplace
  refine ⟨fun l hl => Or.inr (hall l hl), fun l => ?_⟩
  split_ifs with hl
  · exact hall l hl
  · rfl

theorem opened_of_makeDirectory (h : t.makeDirectory p = .ok t₁) : Opened t t₁ p.trail := by
  unfold makeDirectory at h
  cases hl : t.locate p with
  | error e => rw [hl] at h; cases h
  | ok loc =>
    obtain ⟨rfl, hway⟩ := locate_ok hl
    rw [hl] at h
    cases hf : t.find? p.place with
    | some node => simp only [hf] at h; cases h
    | none =>
      simp only [hf] at h
      cases h
      have hne : p.place ≠ [] := by
        intro hnil
        rw [hnil, find?_root] at hf
        cases hf
      refine ⟨fun l hl => ?_, fun l => ?_⟩
      · rcases Path.mem_trail.mp hl with hl | rfl
        · exact Or.inr (hway l hl)
        · exact Or.inl hf
      · rw [find?_set hne]
        by_cases heq : l = p.place
        · rw [if_pos heq, if_pos (Path.mem_trail.mpr (Or.inr heq))]
        · rw [if_neg heq]
          split_ifs with hmem
          · exact hway l ((Path.mem_trail.mp hmem).resolve_right heq)
          · rfl

theorem opened_of_ensureDirectory (h : t.ensureDirectory p = (t₁, .ok ())) :
    Opened t t₁ p.trail := by
  unfold ensureDirectory at h
  split at h
  · rename_i hm
    cases h
    exact opened_of_makeDirectory hm
  · cases h
  · cases h
  · split at h
    · rename_i hd
      cases h
      exact opened_of_directory hd
    · cases h
    · cases h

theorem opened_of_makeDirectoriesFrom {root : Text} {names : List Text}
    (h : makeDirectoriesFrom root names t = (t₁, .ok ())) :
    Opened t t₁ (Path.trail ⟨root, names.reverse⟩) := by
  induction names generalizing t t₁ with
  | nil => exact opened_of_ensureDirectory h
  | cons name above ih =>
    unfold makeDirectoriesFrom at h
    split at h
    · have hsub : Path.trail ⟨root, above.reverse⟩ ⊆
          Path.trail ⟨root, (name :: above).reverse⟩ := by
        have hparent := Path.trail_parent_subset ⟨root, (name :: above).reverse⟩
        simpa [Path.parent] using hparent
      split at h
      · cases h
      · rename_i habove
        exact (ih habove).trans (opened_of_ensureDirectory h) hsub
    · exact opened_of_ensureDirectory h

theorem opened_of_makeDirectories (h : t.makeDirectories p = (t₁, .ok ())) :
    Opened t t₁ p.trail := by
  have hfrom := opened_of_makeDirectoriesFrom h
  rwa [List.reverse_reverse] at hfrom

theorem fileTarget_ok {loc : Location} (h : t.fileTarget p = .ok loc) :
    loc = p.place ∧ t.find? p.place ≠ some .directory ∧
      ∀ l ∈ p.way, t.find? l = some .directory := by
  unfold fileTarget at h
  cases hl : t.locate p with
  | error e => rw [hl] at h; cases h
  | ok found =>
    obtain ⟨rfl, hway⟩ := locate_ok hl
    rw [hl] at h
    simp only at h
    split at h
    · cases h
    · rename_i hno
      cases h
      exact ⟨rfl, hno, hway⟩

theorem replaceReply_done (h : t.replaceReply p = .done) : ∃ loc, t.fileTarget p = .ok loc := by
  unfold replaceReply at h
  split_ifs at h
  cases hf : t.fileTarget p with
  | error e => rw [hf] at h; cases h
  | ok loc => exact ⟨loc, rfl⟩

/-- Storing a file at once comes to what storing it in place does. -/
theorem writeFile_of_writeAtomically {data : Bytes} (h : t.writeAtomically p data = (t₁, .ok ())) :
    t.writeFile p data = .ok t₁ := by
  unfold writeAtomically at h
  split at h
  · cases h
  · rename_i disk hrun
    obtain ⟨hreplace, count, hwrite, htarget⟩ := AtomicWrite.run_ok hrun
    obtain ⟨loc, hloc⟩ := replaceReply_done hreplace
    have hcount : count = data.length := by
      cases hwrite
      rfl
    rw [hloc, htarget, hcount, List.take_length] at h
    cases h
    unfold writeFile
    rw [hloc]
    rfl

theorem writeFile_ok {data : Bytes} (h : t.writeFile p data = .ok t₁) :
    t.find? p.place ≠ some .directory ∧ (∀ l ∈ p.way, t.find? l = some .directory) ∧
      t₁ = t.set p.place (.file data) := by
  unfold writeFile at h
  cases hf : t.fileTarget p with
  | error e => rw [hf] at h; cases h
  | ok loc =>
    obtain ⟨rfl, hplace, hway⟩ := fileTarget_ok hf
    rw [hf] at h
    cases h
    exact ⟨hplace, hway, rfl⟩

end Tree

open ApiScaffold.Tree

/-- A stored file is put at its place, its way is opened, and nothing else changes. -/
structure Tree.Stored (t t' : Tree) (p : Path) (data : Bytes) : Prop where
  place : t.find? p.place ≠ some .directory
  way : ∀ l ∈ p.way, t.find? l = none ∨ t.find? l = some .directory
  apart : p.place ∉ p.way
  after : ∀ l, t'.find? l =
    if l = p.place then some (.file data)
    else if l ∈ p.way then some .directory else t.find? l

theorem stored_of_store {atomic : Bool} {t t' : Tree} {p : Path} {data : Bytes}
    (h : Emitter.store atomic t p data = (t', .ok ())) : t.Stored t' p data := by
  unfold Emitter.store at h
  split at h
  · cases h
  · rename_i t₁ hdirs
    have hopened := opened_of_makeDirectories hdirs
    have hwrite : t₁.writeFile p data = .ok t' := by
      split_ifs at h
      · exact writeFile_of_writeAtomically h
      · split at h
        · rename_i hw
          cases h
          exact hw
        · cases h
    obtain ⟨hplace, hway, rfl⟩ := writeFile_ok hwrite
    have hne : p.place ≠ [] := by
      intro hnil
      rw [hnil, find?_root] at hplace
      exact hplace rfl
    have hparts : p.parts ≠ [] := by
      intro hnil
      exact hne (by rw [Path.place, hnil, reached_nil])
    rw [← Path.way_eq_trail_parent hparts] at hopened
    have hapart : p.place ∉ p.way := fun hmem => hplace (hway _ hmem)
    refine ⟨?_, hopened.before, hapart, fun l => ?_⟩
    · have hafter := hopened.after p.place
      rw [if_neg hapart] at hafter
      rwa [← hafter]
    · rw [find?_set hne, hopened.after]

/-- A file to be stored. -/
structure Write where
  path : Path
  content : Bytes
  deriving DecidableEq, Repr

/-- What the last of some files at a location holds. -/
def lastAt (ws : List Write) (l : Location) : Option Bytes :=
  (ws.reverse.find? fun w => w.path.place = l).map Write.content

/-- What is at a location of a tree after files were stored in order. -/
def Tree.afterWrites (t : Tree) (ws : List Write) (l : Location) : Option Node :=
  match lastAt ws l with
  | some content => some (.file content)
  | none => (t.find? l).or (if ∃ w ∈ ws, l ∈ w.path.way then some .directory else none)

/-- The tree is what storing files in order makes of a base. -/
structure Written (base : Tree) (ws : List Write) (t : Tree) : Prop where
  contents : ∀ l, t.find? l = base.afterWrites ws l
  places : ∀ w ∈ ws, base.find? w.path.place ≠ some .directory

theorem lastAt_concat (ws : List Write) (w : Write) (l : Location) :
    lastAt (ws ++ [w]) l = if w.path.place = l then some w.content else lastAt ws l := by
  unfold lastAt
  rw [List.reverse_append, List.reverse_singleton, List.singleton_append, List.find?_cons]
  by_cases h : w.path.place = l <;> simp [h]

theorem lastAt_self_append (ws : List Write) (l : Location) :
    lastAt (ws ++ ws) l = lastAt ws l := by
  unfold lastAt
  rw [List.reverse_append, List.find?_append, Option.or_self]

theorem mem_of_lastAt {ws : List Write} {l : Location} {content : Bytes}
    (h : lastAt ws l = some content) : ∃ w ∈ ws, w.path.place = l := by
  obtain ⟨w, hw, -⟩ := Option.map_eq_some_iff.mp h
  exact ⟨w, List.mem_reverse.mp (List.mem_of_find?_eq_some hw), by simpa using List.find?_some hw⟩

theorem lastAt_eq_none {ws : List Write} {l : Location} (h : ∀ w ∈ ws, w.path.place ≠ l) :
    lastAt ws l = none := by
  cases hl : lastAt ws l with
  | none => rfl
  | some content =>
    obtain ⟨w, hw, hplace⟩ := mem_of_lastAt hl
    exact absurd hplace (h w hw)

/-- Storing the same files once more changes nothing. -/
theorem afterWrites_self_append (t : Tree) (ws : List Write) (l : Location) :
    t.afterWrites (ws ++ ws) l = t.afterWrites ws l := by
  simp only [afterWrites, lastAt_self_append, List.mem_append, or_self]

theorem written_nil (t : Tree) : Written t [] t :=
  ⟨fun l => by simp [afterWrites, lastAt], by simp⟩

namespace Written

variable {base t t' : Tree} {ws : List Write}

/-- Directories of the base stay. -/
theorem directory (h : Written base ws t) {l : Location} (hl : base.find? l = some .directory) :
    t.find? l = some .directory := by
  have hno : lastAt ws l = none := lastAt_eq_none fun w hw hplace => h.places w hw (hplace ▸ hl)
  rw [h.contents, afterWrites, hno, hl]
  rfl

/-- Storing one more file goes on with the list. -/
theorem concat (h : Written base ws t) {w : Write} (hs : t.Stored t' w.path w.content) :
    Written base (ws ++ [w]) t' := by
  refine ⟨fun l => ?_, fun v hv => ?_⟩
  · rw [hs.after, afterWrites, lastAt_concat]
    by_cases heq : l = w.path.place
    · rw [if_pos heq, if_pos heq.symm]
    rw [if_neg heq, if_neg (Ne.symm heq)]
    have hl := h.contents l
    cases hlast : lastAt ws l with
    | some content =>
      -- A location that holds a file is not on the way of a file that could be stored.
      rw [afterWrites, hlast] at hl
      have hout : l ∉ w.path.way := by
        intro hmem
        rcases hs.way l hmem with hno | hno <;> rw [hl] at hno <;> cases hno
      rw [if_neg hout, hl]
    | none =>
      rw [afterWrites, hlast] at hl
      by_cases hmem : l ∈ w.path.way
      · have hany : ∃ v ∈ ws ++ [w], l ∈ v.path.way :=
          ⟨w, List.mem_append_right _ List.mem_cons_self, hmem⟩
        rw [if_pos hmem, if_pos hany]
        cases hb : base.find? l with
        | none => rfl
        | some node =>
          rw [hb] at hl
          rcases hs.way l hmem with hno | hno <;> rw [hl] at hno <;> cases hno
          rfl
      · have hany : (∃ v ∈ ws ++ [w], l ∈ v.path.way) ↔ ∃ v ∈ ws, l ∈ v.path.way := by
          simp [or_and_right, exists_or, hmem]
        simp only [if_neg hmem, hl, hany]
  · rcases List.mem_append.mp hv with hv | hv
    · exact h.places v hv
    · rw [List.mem_singleton.mp hv]
      exact fun hdir => hs.place (h.directory hdir)

end Written

end ApiScaffold
