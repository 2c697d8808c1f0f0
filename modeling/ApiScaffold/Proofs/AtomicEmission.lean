import ApiScaffold.Generation.Run
import ApiScaffold.Proofs.Storing
import Mathlib.Data.List.TakeDrop

/-!
# Writing at once, whatever the system answers

Every call of a write may fail, and a write may store less than it was given. Whatever the
answers are, an error leaves the target alone. The rest of the promise is not kept for all of
them: the count of stored bytes is not looked at, so that a short write puts the beginning of the
data in the place of the target and nobody is told; and after an error the file under the other
name stays, with no call to remove it, when closing it once more fails or when the system does
not find it. The promise holds for exactly the answers that have neither.

The theorems are about a tree that already has the directories for the file. The system chooses
the random part of the other name, and it chooses one that is not in use.
-/
namespace ApiScaffold

open Text

namespace AtomicWrite

/-- Where the calls of a write come to an end. -/
inductive Stage (ε : Type) where
  /-- The file under the other name was not made. -/
  | unmade (e : ε)
  /-- A later call failed, while the file was held open or after it was closed. -/
  | broken (isOpen : Bool) (e : ε)
  | replaced
  deriving DecidableEq, Repr

variable {ε : Type} {replies : Replies ε} {data : Bytes}

namespace Replies

def stage (replies : Replies ε) : Stage ε :=
  match replies.create, replies.write, replies.sync, replies.close, replies.permit,
    replies.replace with
  | .failed e, _, _, _, _, _ => .unmade e
  | .done, .failed e, _, _, _, _ => .broken true e
  | .done, .stored _, .failed e, _, _, _ => .broken true e
  | .done, .stored _, .done, .failed e, _, _ => .broken true e
  | .done, .stored _, .done, .done, .failed e, _ => .broken false e
  | .done, .stored _, .done, .done, .done, .failed e => .broken false e
  | .done, .stored _, .done, .done, .done, .done => .replaced

/-- What the file under the other name holds once it is made. -/
def stored (replies : Replies ε) (data : Bytes) : Bytes :=
  match replies.write with
  | .stored count => data.take count
  | .failed _ => []

/-- A write that goes through to its end has stored all bytes. -/
def StoresAll (replies : Replies ε) (size : Nat) : Prop :=
  ∀ count, replies.stage = .replaced → replies.write = .stored count → size ≤ count

/-- After an error the program comes to the call that removes the other file. -/
def ComesToUnlink (replies : Replies ε) (isOpen : Bool) : Prop :=
  (isOpen = true → replies.closeAgain = .done) ∧ replies.seen = true

/-- After an error the other file is given up, and no call removes it. -/
def Abandons (replies : Replies ε) : Prop :=
  ∃ isOpen e, replies.stage = .broken isOpen e ∧ ¬replies.ComesToUnlink isOpen

/-- After an error the call that removes the other file fails too. -/
def FailsToUnlink (replies : Replies ε) : Prop :=
  ∃ isOpen e, replies.stage = .broken isOpen e ∧ replies.ComesToUnlink isOpen ∧
    replies.unlink ≠ .done

theorem Abandons.not_failsToUnlink (h : replies.Abandons) : ¬replies.FailsToUnlink := by
  rintro ⟨isOpen, e, hstage, hcomes, -⟩
  obtain ⟨isOpen', e', hstage', hnot⟩ := h
  rw [hstage] at hstage'
  cases hstage'
  exact hnot hcomes

theorem calls_of_replaced (h : replies.stage = .replaced) :
    (∃ count, replies.write = .stored count) ∧ replies.replace = .done := by
  unfold stage at h
  split at h
  case h_7 =>
    rename_i count _ hwrite _ _ _ hreplace
    exact ⟨⟨count, hwrite⟩, hreplace⟩
  all_goals cases h

/-- A write that goes through stores the data as they are when all bytes are stored, and only
then. -/
theorem stored_eq_iff (h : replies.stage = .replaced) :
    replies.stored data = data ↔ replies.StoresAll data.length := by
  obtain ⟨⟨count, hwrite⟩, -⟩ := calls_of_replaced h
  have hall : replies.StoresAll data.length ↔ data.length ≤ count := by
    constructor
    · exact fun hall => hall count h hwrite
    · intro hle count' _ hwrite'
      rw [hwrite] at hwrite'
      cases hwrite'
      exact hle
  rw [hall, stored, hwrite]
  exact List.take_eq_self_iff data

end Replies

theorem run_eq (replies : Replies ε) (data : Bytes) (disk : Disk) :
    run replies data disk =
      match replies.stage with
      | .unmade e => (disk, .error e)
      | .broken isOpen e =>
        cleanUp replies isOpen { disk with scratch := some (replies.stored data) } e
      | .replaced => (⟨some (replies.stored data), none⟩, .ok ()) := by
  obtain ⟨create, write, sync, close, permit, replace, closeAgain, seen, unlink⟩ := replies
  cases create with
  | failed e => rfl
  | done =>
    cases write with
    | failed e => rfl
    | stored count => cases sync <;> cases close <;> cases permit <;> cases replace <;> rfl

/-- Cleaning up ends with an error and leaves the target; the other file goes when the program
comes to the call that removes it and that call does not fail. -/
theorem cleanUp_spec (replies : Replies ε) (isOpen : Bool) (disk : Disk) (e : ε) :
    ∃ e', cleanUp replies isOpen disk e = (disk, .error e') ∧
        (replies.ComesToUnlink isOpen → replies.unlink ≠ .done) ∨
      cleanUp replies isOpen disk e = ({ disk with scratch := none }, .error e') ∧
        replies.ComesToUnlink isOpen ∧ replies.unlink = .done := by
  unfold cleanUp Replies.ComesToUnlink
  split
  · rename_i e' hagain
    exact ⟨e', Or.inl ⟨rfl, fun hcomes => by simp [hagain] at hcomes⟩⟩
  · rename_i isOpen _ _ hopen
    have hagain : isOpen = true → replies.closeAgain = .done := by
      intro his
      cases hclose : replies.closeAgain with
      | done => rfl
      | failed e' => exact (hopen e' his hclose).elim
    cases hseen : replies.seen with
    | false => exact ⟨e, Or.inl ⟨rfl, by simp⟩⟩
    | true =>
      cases hunlink : replies.unlink with
      | done => exact ⟨e, Or.inr ⟨rfl, ⟨hagain, rfl⟩, rfl⟩⟩
      | failed e' => exact ⟨e', Or.inl ⟨rfl, by simp⟩⟩

theorem run_replaced (h : replies.stage = .replaced) (disk : Disk) :
    run replies data disk = (⟨some (replies.stored data), none⟩, .ok ()) := by
  rw [run_eq, h]

/-- A write that does not go through leaves the target, ends with an error, and leaves the other
file exactly when that was given up or could not be removed. -/
theorem run_not_replaced (h : replies.stage ≠ .replaced) (data : Bytes)
    (before : Option Bytes) :
    ∃ scratch e, run replies data ⟨before, none⟩ = (⟨before, scratch⟩, .error e) ∧
      (scratch = none ↔ ¬(replies.Abandons ∨ replies.FailsToUnlink)) := by
  rw [run_eq]
  cases hstage : replies.stage with
  | replaced => exact absurd hstage h
  | unmade e =>
    refine ⟨none, e, rfl, iff_of_true rfl ?_⟩
    rintro (⟨_, _, hbroken, -⟩ | ⟨_, _, hbroken, -⟩) <;> rw [hstage] at hbroken <;> cases hbroken
  | broken isOpen e =>
    obtain ⟨e', ⟨hrun, hstays⟩ | ⟨hrun, hcomes, hunlink⟩⟩ :=
      cleanUp_spec replies isOpen ⟨before, some (replies.stored data)⟩ e
    · refine ⟨_, e', hrun, iff_of_false (by simp) (not_not.mpr ?_)⟩
      by_cases hcomes : replies.ComesToUnlink isOpen
      · exact Or.inr ⟨isOpen, e, hstage, hcomes, hstays hcomes⟩
      · exact Or.inl ⟨isOpen, e, hstage, hcomes⟩
    · refine ⟨none, e', hrun, iff_of_true rfl ?_⟩
      rintro (⟨_, _, hbroken, hnot⟩ | ⟨_, _, -, -, hnot⟩)
      · rw [hstage] at hbroken
        cases hbroken
        exact hnot hcomes
      · exact hnot hunlink

end AtomicWrite

open AtomicWrite

namespace Path

/-- Where the file under the other name is: beside the target, with a name that the system
completes. -/
def scratch (p : Path) (random : Text) : Location :=
  p.parent.place ++ ["." ++ p.name ++ "." ++ random ++ ".tmp"]

theorem scratch_ne_nil (p : Path) (random : Text) : p.scratch random ≠ [] := by
  simp [scratch]

theorem scratch_ne_place (p : Path) (random : Text) : p.scratch random ≠ p.place := by
  rcases List.eq_nil_or_concat p.parts with hnil | ⟨front, last, hparts⟩
  · have hplace : p.place = [] := by rw [place, hnil, Tree.reached_nil]
    exact hplace ▸ p.scratch_ne_nil random
  · rw [List.concat_eq_append] at hparts
    have hparent : p.parent.place = Tree.reached [] front := by
      rw [place, parent, hparts, List.dropLast_concat]
    have hname : p.name = last := by rw [name, hparts, List.getLast?_concat, Option.getD_some]
    have hplace : p.place = Tree.next (Tree.reached [] front) last := by
      rw [place, hparts, Tree.reached_append, Tree.reached_cons, Tree.reached_nil]
    rw [scratch, hparent, hname, hplace, Tree.next]
    split_ifs with hup
    · -- A target that leads up lies higher than the file beside it.
      intro heq
      have hlength := congrArg List.length heq
      simp at hlength
      omega
    · intro heq
      have hlast := congrArg List.length (List.singleton_inj.mp (List.append_cancel_left heq))
      simp at hlast
      omega

end Path

namespace Tree

variable {ε : Type} {replies : Replies ε} {random : Text} {t t₁ t' : Tree} {p : Path}
  {data : Bytes}

/-- Keeps a file at a location if there is one to keep. -/
def put (t : Tree) (l : Location) : Option Bytes → Tree
  | some content => t.set l (.file content)
  | none => t

/-- A write at once with any answers: the tree has afterwards what the calls left under the two
names. -/
def writeWith (replies : Replies ε) (random : Text) (t : Tree) (p : Path) (data : Bytes) :
    Tree × Except ε Unit :=
  let (disk, answer) := run replies data ⟨t.content? p, none⟩
  ((t.put p.place disk.target).put (p.scratch random) disk.scratch, answer)

theorem find?_of_content? {content : Bytes} (h : t.content? p = some content) :
    t.find? p.place = some (.file content) := by
  unfold content? readFile at h
  cases hs : t.stat p with
  | error e => rw [hs] at h; cases h
  | ok node =>
    rw [hs] at h
    cases node with
    | directory => cases h
    | file found =>
      cases h
      exact (stat_ok hs).1

/-- Putting back what is there changes nothing. -/
theorem find?_put_content? (t : Tree) (p : Path) (l : Location) :
    (t.put p.place (t.content? p)).find? l = t.find? l := by
  cases hc : t.content? p with
  | none => rfl
  | some content =>
    have hfile := find?_of_content? hc
    have hne : p.place ≠ [] := by
      intro hnil
      rw [hnil, find?_root] at hfile
      cases hfile
    rw [put, find?_set hne]
    split_ifs with hl
    · rw [hl, hfile]
    · rfl

theorem writeWith_replaced (h : replies.stage = .replaced) :
    t.writeWith replies random p data =
      (t.set p.place (.file (replies.stored data)), .ok ()) := by
  rw [writeWith, run_replaced h]
  rfl

/-- A write that does not go through changes nothing, the other name apart. -/
theorem find?_writeWith_not_replaced (h : replies.stage ≠ .replaced) (random : Text) (t : Tree)
    (p : Path) (data : Bytes) :
    ∃ e, (t.writeWith replies random p data).2 = .error e ∧
      (∀ l ≠ p.scratch random, (t.writeWith replies random p data).1.find? l = t.find? l) ∧
      (t.find? (p.scratch random) = none →
        ((t.writeWith replies random p data).1.find? (p.scratch random) = none ↔
          ¬(replies.Abandons ∨ replies.FailsToUnlink))) := by
  obtain ⟨left, e, hrun, hleft⟩ := run_not_replaced h data (t.content? p)
  have hwrite : t.writeWith replies random p data =
      ((t.put p.place (t.content? p)).put (p.scratch random) left, .error e) := by
    rw [writeWith, hrun]
  rw [hwrite]
  refine ⟨e, rfl, fun l hl => ?_, fun hfree => ?_⟩
  · cases left with
    | none => exact find?_put_content? t p l
    | some content =>
      rw [put, find?_set (p.scratch_ne_nil random), if_neg hl, find?_put_content?]
  · rw [← hleft]
    cases left with
    | none => exact iff_of_true ((find?_put_content? t p _).trans hfree) rfl
    | some content =>
      rw [put, find?_set (p.scratch_ne_nil random), if_pos rfl]
      simp

/-- A tree's own answers neither store less than all bytes nor leave the other file. -/
theorem replies_storesAll (t : Tree) (p : Path) (data : Bytes) :
    (t.replies p data).StoresAll data.length := by
  intro count _ hwrite
  cases hwrite
  exact Nat.le_refl _

theorem replies_not_abandons (t : Tree) (p : Path) (data : Bytes) :
    ¬(t.replies p data).Abandons := by
  rintro ⟨isOpen, e, -, hnot⟩
  exact hnot ⟨fun _ => rfl, rfl⟩

theorem replies_not_failsToUnlink (t : Tree) (p : Path) (data : Bytes) :
    ¬(t.replies p data).FailsToUnlink := by
  rintro ⟨isOpen, e, -, -, hnot⟩
  exact hnot rfl

/-- With the answers of the tree itself the write is the one that programs do. -/
theorem writeAtomically_eq_writeWith (t : Tree) (p : Path) (data : Bytes) (random : Text) :
    (t.writeAtomically p data).2 = (t.writeWith (t.replies p data) random p data).2 ∧
      ∀ l, (t.writeAtomically p data).1.find? l =
        (t.writeWith (t.replies p data) random p data).1.find? l := by
  by_cases hstage : (t.replies p data).stage = .replaced
  · obtain ⟨loc, hloc⟩ := replaceReply_done (Replies.calls_of_replaced hstage).2
    obtain ⟨rfl, -⟩ := fileTarget_ok hloc
    rw [writeWith_replaced hstage]
    simp only [writeAtomically, run_replaced hstage, hloc, implies_true, and_self]
  · obtain ⟨left, e, hrun, hleft⟩ := run_not_replaced hstage data (t.content? p)
    have hnone : left = none := hleft.mpr (not_or.mpr
      ⟨t.replies_not_abandons p data, t.replies_not_failsToUnlink p data⟩)
    rw [writeAtomically, writeWith, hrun, hnone]
    exact ⟨rfl, fun l => (find?_put_content? t p l).symm⟩

/-- What a write promises: the target is left as it was or holds all of the data, an end without
an error means all of the data, and nothing is left under the other name unless the call that
removes it failed. -/
structure Promise {α : Type} (replies : Replies ε) (random : Text) (t t' : Tree) (p : Path)
    (data : Bytes) (answer : Except ε α) : Prop where
  whole : t'.find? p.place = t.find? p.place ∨ t'.find? p.place = some (.file data)
  told : ∀ x, answer = .ok x → t'.find? p.place = some (.file data)
  tidy : t'.find? (p.scratch random) = none ∨ replies.FailsToUnlink

theorem promise_map_iff {α β : Type} {answer : Except ε α} (f : α → β) :
    Promise replies random t t' p data (answer.map f) ↔
      Promise replies random t t' p data answer := by
  constructor
  · intro h
    exact ⟨h.whole, fun x hx => h.told (f x) (hx ▸ rfl), h.tidy⟩
  · intro h
    refine ⟨h.whole, fun y hy => ?_, h.tidy⟩
    cases answer with
    | error e => cases hy
    | ok x => exact h.told x rfl

theorem promise_iff (hroot : p.place ≠ []) (hfree : t.find? (p.scratch random) = none) :
    Promise replies random t (t.writeWith replies random p data).1 p data
        (t.writeWith replies random p data).2 ↔
      replies.StoresAll data.length ∧ ¬replies.Abandons := by
  by_cases hstage : replies.stage = .replaced
  · have hnot : ¬replies.Abandons := by
      rintro ⟨_, _, hbroken, -⟩
      rw [hstage] at hbroken
      cases hbroken
    have hplace : (t.set p.place (.file (replies.stored data))).find? p.place =
        some (.file (replies.stored data)) := by rw [find?_set hroot, if_pos rfl]
    rw [writeWith_replaced hstage, ← Replies.stored_eq_iff hstage, and_iff_left hnot]
    constructor
    · intro hpromise
      have hfile := hpromise.told () rfl
      rw [hplace] at hfile
      injection hfile with hfile
      injection hfile
    · intro hall
      rw [hall] at hplace ⊢
      refine ⟨Or.inr hplace, fun _ _ => hplace, Or.inl ?_⟩
      rw [find?_set hroot, if_neg (p.scratch_ne_place random), hfree]
  · obtain ⟨e, hanswer, hsame, hleft⟩ := find?_writeWith_not_replaced hstage random t p data
    have hstores : replies.StoresAll data.length := fun _ h _ => absurd h hstage
    rw [and_iff_right hstores]
    constructor
    · intro hpromise habandons
      rcases hpromise.tidy with hnone | hfails
      · exact (hleft hfree).mp hnone (Or.inl habandons)
      · exact habandons.not_failsToUnlink hfails
    · intro hnot
      refine ⟨Or.inl (hsame _ (p.scratch_ne_place random).symm), fun x hx => ?_, ?_⟩
      · rw [hanswer] at hx
        cases hx
      · by_cases hfails : replies.FailsToUnlink
        · exact Or.inr hfails
        · exact Or.inl ((hleft hfree).mpr (not_or.mpr ⟨hnot, hfails⟩))

/-- With the answers of the tree itself a write keeps its promise. -/
theorem writeAtomically_promise (hroot : p.place ≠ [])
    (hfree : t.find? (p.scratch random) = none) :
    Promise (t.replies p data) random t (t.writeAtomically p data).1 p data
      (t.writeAtomically p data).2 := by
  obtain ⟨hanswer, hsame⟩ := t.writeAtomically_eq_writeWith p data random
  have hpromise := (promise_iff hroot hfree).mpr
    ⟨t.replies_storesAll p data, t.replies_not_abandons p data⟩
  refine ⟨?_, fun x hx => ?_, ?_⟩
  · rw [hsame]
    exact hpromise.whole
  · rw [hsame]
    exact hpromise.told x (hanswer ▸ hx)
  · rw [hsame]
    exact hpromise.tidy

/-- Making directories takes no file away. -/
theorem Opened.file {trail : List Location} (h : Opened t t₁ trail) {l : Location}
    {content : Bytes} (hfile : t.find? l = some (.file content)) :
    t₁.find? l = some (.file content) := by
  rw [h.after, if_neg, hfile]
  intro hmem
  rcases h.before l hmem with hno | hno <;> rw [hfile] at hno <;> cases hno

end Tree

namespace Emitter

variable {ε : Type} {em : Emitter} {a : Artifact} {t t₁ t' : Tree}

/-- Writes an artifact at once, with any answers, into a tree that has the directories for it. -/
def emitWith (replies : Replies ε) (random : Text) (em : Emitter) (t : Tree) (a : Artifact) :
    Tree × Except ε Emitter :=
  match t.writeWith replies random (em.target a.path) (utf8 a.content) with
  | (t, .error e) => (t, .error e)
  | (t, .ok ()) => (t, .ok (em.noteFile a))

/-- The emitter that a run goes on with: a failed emission gives none, and the old one stays. -/
def after (em : Emitter) (answer : Except ε Emitter) : Emitter := answer.toOption.getD em

theorem emitWith_eq (replies : Replies ε) (random : Text) (em : Emitter) (t : Tree)
    (a : Artifact) :
    em.emitWith replies random t a =
      ((t.writeWith replies random (em.target a.path) (utf8 a.content)).1,
        (t.writeWith replies random (em.target a.path) (utf8 a.content)).2.map
          fun _ => em.noteFile a) := by
  unfold emitWith
  split <;> rename_i hwrite <;> rw [hwrite] <;> rfl

/-- With the answers of the tree itself the emission is the one that runs do. -/
theorem emit_eq_emitWith (hatomic : em.atomic = true) (hdry : em.dryRun = false)
    (hdirs : t.makeDirectories (em.target a.path).parent = (t₁, .ok ())) (random : Text) :
    (em.emit t a).2 = (em.emitWith (t₁.replies (em.target a.path) (utf8 a.content)) random t₁
        a).2 ∧
      ∀ l, (em.emit t a).1.find? l = (em.emitWith (t₁.replies (em.target a.path)
        (utf8 a.content)) random t₁ a).1.find? l := by
  obtain ⟨hanswer, hsame⟩ :=
    t₁.writeAtomically_eq_writeWith (em.target a.path) (utf8 a.content) random
  rw [emitWith_eq]
  simp only [← hanswer, ← hsame, emit, store, hdry, hdirs, hatomic, if_true, Bool.false_eq_true,
    if_false]
  split <;> rename_i hwrite <;> rw [hwrite] <;> exact ⟨rfl, fun l => rfl⟩

/-- An emission keeps the promise of its write when that does. Whatever the answers are, an error
leaves the manifest and every file that was there before, and the manifest gets the artifact
otherwise. -/
theorem emitWith_promise_iff (replies : Replies ε) (random : Text) {answer : Except ε Emitter}
    (hdirs : t.makeDirectories (em.target a.path).parent = (t₁, .ok ()))
    (hroot : (em.target a.path).place ≠ [])
    (hfree : t₁.find? ((em.target a.path).scratch random) = none)
    (hemit : em.emitWith replies random t₁ a = (t', answer)) :
    (Tree.Promise replies random t₁ t' (em.target a.path) (utf8 a.content) answer ↔
      replies.StoresAll (utf8 a.content).length ∧ ¬replies.Abandons) ∧
    (∀ e, answer = .error e → (em.after answer).manifest = em.manifest ∧
      ∀ l content, t.find? l = some (.file content) → t'.find? l = some (.file content)) ∧
    ∀ em', answer = .ok em' →
      (em.after answer).manifest.files = em.manifest.files ++ [em.record a] := by
  rw [emitWith_eq] at hemit
  obtain ⟨rfl, rfl⟩ := Prod.mk.inj hemit
  refine ⟨(Tree.promise_map_iff _).trans (Tree.promise_iff hroot hfree), fun e he => ?_,
    fun em' hem' => ?_⟩
  · have hstage : replies.stage ≠ .replaced := by
      intro hstage
      rw [Tree.writeWith_replaced hstage] at he
      cases he
    obtain ⟨-, -, hsame, -⟩ := Tree.find?_writeWith_not_replaced hstage random t₁
      (em.target a.path) (utf8 a.content)
    refine ⟨by rw [he]; rfl, fun l content hfile => ?_⟩
    have hbefore := (Tree.opened_of_makeDirectories hdirs).file hfile
    have hl : l ≠ (em.target a.path).scratch random := by
      rintro rfl
      rw [hfree] at hbefore
      cases hbefore
    rw [hsame l hl, hbefore]
  · cases hwrite : (t₁.writeWith replies random (em.target a.path) (utf8 a.content)).2 with
    | error e => rw [hwrite] at hem'; cases hem'
    | ok x => rfl

/-- The promise of a write holds for exactly the answers with which a write that replaces its
target has stored all bytes, and no other file is given up. The same goes for the emission that
the write is made for; besides, an error leaves the manifest and every file that was there before
the emission, and the manifest gets the artifact otherwise, whatever the answers are. -/
theorem writeWith_promise_iff (replies : Replies ε) (random : Text) {p : Path} {data : Bytes}
    (hroot : p.place ≠ []) (hfree : t₁.find? (p.scratch random) = none) :
    (Tree.Promise replies random t₁ (t₁.writeWith replies random p data).1 p data
        (t₁.writeWith replies random p data).2 ↔
      replies.StoresAll data.length ∧ ¬replies.Abandons) ∧
    ∀ (em : Emitter) (a : Artifact) (t t' : Tree) (answer : Except ε Emitter),
      em.target a.path = p → utf8 a.content = data → t.makeDirectories p.parent = (t₁, .ok ()) →
      em.emitWith replies random t₁ a = (t', answer) →
      (Tree.Promise replies random t₁ t' p data answer ↔
        replies.StoresAll data.length ∧ ¬replies.Abandons) ∧
      (∀ e, answer = .error e → (em.after answer).manifest = em.manifest ∧
        ∀ l content, t.find? l = some (.file content) → t'.find? l = some (.file content)) ∧
      ∀ em', answer = .ok em' →
        (em.after answer).manifest.files = em.manifest.files ++ [em.record a] := by
  refine ⟨Tree.promise_iff hroot hfree, fun em a t t' answer hp hdata hdirs hemit => ?_⟩
  subst hp hdata
  exact emitWith_promise_iff replies random hdirs hroot hfree hemit

def noteEmitter : Emitter := start ⟨"/", ["out"]⟩ true false

def note : Artifact := { kind := "data", path := "Note.php", content := "new" }

/-- The note was written before. -/
def noteTree : Tree :=
  ⟨[(["out"], .directory), (["out", "Note.php"], .file (utf8 "old"))]⟩

/-- The last call fails. -/
def lateFailure : Replies Unit := { write := .stored 3, replace := .failed () }

/-- One byte is stored, and all else is done. -/
def shortWrite : Replies Unit := { write := .stored 1 }

/-- The file can not be closed, neither at first nor after the error. -/
def stuckClose : Replies Unit :=
  { write := .stored 3, close := .failed (), closeAgain := .failed () }

theorem note_promise :
    ∃ t' answer, noteTree.makeDirectories (noteEmitter.target note.path).parent =
        (noteTree, .ok ()) ∧
      (noteEmitter.target note.path).place ≠ [] ∧
      noteTree.find? ((noteEmitter.target note.path).scratch "zyxwvuts") = none ∧
      noteEmitter.emitWith lateFailure "zyxwvuts" noteTree note = (t', answer) ∧
      Tree.Promise lateFailure "zyxwvuts" noteTree t' (noteEmitter.target note.path)
        (utf8 note.content) answer ∧
      t'.find? ["out", "Note.php"] = some (.file (utf8 "old")) := by
  have hdirs : noteTree.makeDirectories (noteEmitter.target note.path).parent =
      (noteTree, .ok ()) := rfl
  have hroot : (noteEmitter.target note.path).place ≠ [] := by decide
  have hfree : noteTree.find? ((noteEmitter.target note.path).scratch "zyxwvuts") = none := by
    decide
  obtain ⟨t', e, hemit⟩ : ∃ t' e, noteEmitter.emitWith lateFailure "zyxwvuts" noteTree note =
      (t', .error e) := ⟨_, _, rfl⟩
  obtain ⟨-, hemission⟩ := writeWith_promise_iff lateFailure "zyxwvuts" hroot hfree
  obtain ⟨hpromise, herror, -⟩ :=
    hemission noteEmitter note noteTree t' (.error e) rfl rfl hdirs hemit
  refine ⟨t', .error e, hdirs, hroot, hfree, hemit, hpromise.mpr ⟨?_, ?_⟩, ?_⟩
  · intro count hstage _
    cases hstage
  · rintro ⟨isOpen, _, -, hnot⟩
    exact hnot ⟨fun _ => rfl, rfl⟩
  · exact (herror e rfl).2 _ _ (by decide)

/-- The short write is reported as done, and its one byte is all that the target holds. The file
that can not be closed stays, and no call to remove it has failed. -/
theorem shortWrite_breaks_promise :
    (∃ t' answer em', noteEmitter.emitWith shortWrite "zyxwvuts" noteTree note = (t', answer) ∧
      answer = .ok em' ∧ em'.manifest.files = [noteEmitter.record note] ∧
      t'.find? ["out", "Note.php"] = some (.file (utf8 "n")) ∧
      ¬Tree.Promise shortWrite "zyxwvuts" noteTree t' (noteEmitter.target note.path)
        (utf8 note.content) answer) ∧
    ∃ t' answer, noteEmitter.emitWith stuckClose "zyxwvuts" noteTree note = (t', answer) ∧
      t'.find? ["out", ".Note.php.zyxwvuts.tmp"] = some (.file (utf8 "new")) ∧
      ¬Tree.Promise stuckClose "zyxwvuts" noteTree t' (noteEmitter.target note.path)
        (utf8 note.content) answer := by
  refine ⟨⟨_, _, _, rfl, rfl, rfl, by decide, fun hpromise => ?_⟩,
    _, _, rfl, by decide, fun hpromise => ?_⟩
  · exact absurd (hpromise.told _ rfl) (by decide)
  · rcases hpromise.tidy with hnone | ⟨isOpen, e, hstage, hcomes, -⟩
    · exact absurd hnone (by decide)
    · cases hstage
      exact absurd (hcomes.1 rfl) (by decide)

end Emitter

/-- A job that is rendered leaves the run with the emitter after its emission. -/
theorem Run.emitter_step {site : Site} {s : Settings} {run : Run} {job : Job} {a : Artifact}
    {stubs : Stub.Repository} (h : job.render site s run.tree run.stubs = .ok (.made a, stubs)) :
    (run.step site s job).1.emitter = run.emitter.after (run.emitter.emit run.tree a).2 := by
  unfold step
  rw [h]
  dsimp only
  split <;> rename_i hemit <;> rw [hemit] <;> rfl

end ApiScaffold
