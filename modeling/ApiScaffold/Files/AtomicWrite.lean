import ApiScaffold.Files.Tree

/-!
# Writing a file at once

A file is written under another name beside its target and then put in the place of the
target, so that the target holds either what it held or all that was written. The system
answers each call in its own way: a call may fail, and a write may store less than it was
given. `run` follows the calls for all answers that a system can give; `Tree.writeAtomically`
is the run with the answers of a tree.
-/
namespace ApiScaffold

open Text

namespace AtomicWrite

inductive Reply (ε : Type) where
  | done
  | failed (e : ε)
  deriving DecidableEq, Repr

inductive WriteReply (ε : Type) where
  /-- The count of bytes that were stored. -/
  | stored (count : Nat)
  | failed (e : ε)
  deriving DecidableEq, Repr

/-- The answers to the calls of one write, in the order of the calls. The last three are made
only when something is left to be cleaned up. -/
structure Replies (ε : Type) where
  create : Reply ε := .done
  write : WriteReply ε
  sync : Reply ε := .done
  close : Reply ε := .done
  permit : Reply ε := .done
  replace : Reply ε := .done
  closeAgain : Reply ε := .done
  /-- Whether the system finds the file under its other name again. -/
  seen : Bool := true
  unlink : Reply ε := .done
  deriving Repr

/-- What is stored under the name of the target and under the other name. -/
structure Disk where
  target : Option Bytes
  scratch : Option Bytes := none
  deriving DecidableEq, Repr

/-- Takes the file under the other name away again after an error. -/
def cleanUp {ε : Type} (replies : Replies ε) (isOpen : Bool) (disk : Disk) (e : ε) :
    Disk × Except ε Unit :=
  match isOpen, replies.closeAgain with
  | true, .failed e => (disk, .error e)
  | _, _ =>
    if replies.seen then
      match replies.unlink with
      | .done => ({ disk with scratch := none }, .error e)
      | .failed e => (disk, .error e)
    else (disk, .error e)

/-- All calls of one write. -/
def run {ε : Type} (replies : Replies ε) (data : Bytes) (disk : Disk) : Disk × Except ε Unit :=
  match replies.create with
  | .failed e => (disk, .error e)
  | .done =>
    let disk := { disk with scratch := some [] }
    match replies.write with
    | .failed e => cleanUp replies true disk e
    | .stored count =>
      let disk := { disk with scratch := some (data.take count) }
      match replies.sync, replies.close, replies.permit, replies.replace with
      | .failed e, _, _, _ => cleanUp replies true disk e
      | .done, .failed e, _, _ => cleanUp replies true disk e
      | .done, .done, .failed e, _ => cleanUp replies false disk e
      | .done, .done, .done, .failed e => cleanUp replies false disk e
      | .done, .done, .done, .done => (⟨disk.scratch, none⟩, .ok ())

end AtomicWrite

namespace Tree

open AtomicWrite

/-- The bytes that the other name has more than the name of the target. -/
def scratchNameExtra : Nat := 14

/-- The answer to the call that makes the file under its other name. -/
def createReply (t : Tree) (p : Path) : Reply SystemError :=
  match t.stat p.parent with
  | .error e => .failed e
  | .ok (.file _) => .failed .notDirectory
  | .ok .directory =>
    if p.name.contains '\x00' then .failed .embeddedNul
    else if nameLimit < (utf8 p.name).length + scratchNameExtra then .failed .nameTooLong
    else .done

/-- The answer to the call that puts the file in the place of its target. -/
def replaceReply (t : Tree) (p : Path) : Reply SystemError :=
  if p.name = ("..": Text) then .failed .busy
  else
    match t.fileTarget p with
    | .error e => .failed e
    | .ok _ => .done

/-- The answers of a tree, which stores all bytes of a file it could make. -/
def replies (t : Tree) (p : Path) (data : Bytes) : Replies SystemError :=
  { create := t.createReply p, write := .stored data.length, replace := t.replaceReply p }

/-- The content of the file at a path, if there is one. -/
def content? (t : Tree) (p : Path) : Option Bytes :=
  match t.readFile p with
  | .ok content => some content
  | .error _ => none

/-- Stores a file at once. -/
def writeAtomically (t : Tree) (p : Path) (data : Bytes) : Tree × Except SystemError Unit :=
  match run (t.replies p data) data ⟨t.content? p, none⟩ with
  | (_, .error e) => (t, .error e)
  | (disk, .ok ()) =>
    match t.fileTarget p, disk.target with
    | .ok loc, some content => (t.set loc (.file content), .ok ())
    | _, _ => (t, .ok ())

end Tree

end ApiScaffold
