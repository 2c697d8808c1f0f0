import ApiScaffold.Proofs.AcceptedSettings
import ApiScaffold.Proofs.Collisions
import ApiScaffold.Proofs.DraftOrder
import ApiScaffold.Proofs.PathNames
import Mathlib.Data.Fintype.Fin

/-!
# Controllers that a draft declares twice

The check for repeated controllers compares namespaces and classes as they are, while a file lies
in the directories that a namespace has for its parts. Namespaces that are written differently may
have the same directories, but not those of a draft: its controller names are cut into parts, none
of which is empty or holds a separator, and joined again in one way. So for the controllers of a
draft the check counts exactly those whose file an earlier one has. Controllers from elsewhere,
such as those made for entities, are not looked at.
-/
namespace ApiScaffold

open Text

/-! ### Namespaces and their directories -/

namespace Text

variable {sep : Char} {t piece : Text} {pieces : List Text}

theorem of_mem_splitOn (h : piece ∈ splitOn sep t) : ∀ c ∈ piece, c ≠ sep ∧ c ∈ t := by
  induction t generalizing piece with
  | nil =>
    rw [List.mem_singleton.mp h]
    simp
  | cons d rest ih =>
    obtain ⟨first, more, hsplit⟩ := List.exists_cons_of_ne_nil (splitOn_ne_nil sep rest)
    have hrest : ∀ p ∈ first :: more, ∀ c ∈ p, c ≠ sep ∧ c ∈ d :: rest := by
      intro p hp c hc
      obtain ⟨hne, hmem⟩ := ih (hsplit ▸ hp) c hc
      exact ⟨hne, List.mem_cons_of_mem d hmem⟩
    obtain ⟨hfirst, hmore⟩ := List.forall_mem_cons.mp hrest
    rw [splitOn, hsplit] at h
    split_ifs at h with hd
    · rcases List.mem_cons.mp h with rfl | h
      · simp
      · exact hrest piece h
    · rcases List.mem_cons.mp h with rfl | h
      · exact List.forall_mem_cons.mpr ⟨⟨hd, List.mem_cons_self⟩, hfirst⟩
      · exact hmore piece h

theorem not_mem_replaceChar {new : Text} (h : sep ∉ new) (t : Text) :
    sep ∉ replaceChar sep new t := by
  intro hmem
  obtain ⟨c, -, hc⟩ := List.mem_flatMap.mp hmem
  split_ifs at hc with hsep
  · exact h hc
  · exact hsep (List.mem_singleton.mp hc).symm

/-- Pieces with a separator after each are found again. -/
theorem splitOn_flatMap (h : ∀ p ∈ pieces, sep ∉ p) (t : Text) :
    splitOn sep (pieces.flatMap (· ++ [sep]) ++ t) = pieces ++ splitOn sep t := by
  induction pieces with
  | nil => rfl
  | cons p rest ih =>
    obtain ⟨hp, hrest⟩ := List.forall_mem_cons.mp h
    calc splitOn sep ((p :: rest).flatMap (· ++ [sep]) ++ t)
        = splitOn sep (p ++ sep :: (rest.flatMap (· ++ [sep]) ++ t)) := by
          rw [List.flatMap_cons, List.append_assoc, List.append_assoc, List.singleton_append]
      _ = [p] ++ (rest ++ splitOn sep t) := by
          rw [splitOn_append_cons, splitOn_of_not_mem hp, ih hrest]
      _ = p :: rest ++ splitOn sep t := rfl

theorem splitOn_join (h : ∀ p ∈ pieces, sep ∉ p) (hne : pieces ≠ []) :
    splitOn sep (join [sep] pieces) = pieces := by
  obtain ⟨front, last, rfl⟩ := (List.eq_nil_or_concat' pieces).resolve_left hne
  obtain ⟨hfront, hlast⟩ := List.forall_mem_append.mp h
  rw [join_concat, splitOn_flatMap hfront, splitOn_of_not_mem (hlast last List.mem_cons_self)]

end Text

/-- Parts of a name: none is empty, and none has a separator. -/
def PartsOfName (parts : List Text) : Prop := ∀ p ∈ parts, p ≠ [] ∧ '/' ∉ p ∧ '\\' ∉ p

theorem Draft.nameParts_partsOfName (name : Text) : PartsOfName (nameParts name) := by
  intro p hp
  obtain ⟨hsplit, hne⟩ := List.mem_filter.mp hp
  have hchars := of_mem_splitOn hsplit
  refine ⟨by simpa using hne, fun h => (hchars _ h).1 rfl, fun h => ?_⟩
  exact not_mem_replaceChar (by decide) name (hchars _ h).2

namespace PartsOfName

variable {parts parts' : List Text}

theorem dropLast (h : PartsOfName parts) : PartsOfName parts.dropLast := fun p hp =>
  h p (List.mem_of_mem_dropLast hp)

/-- The directories of a joined namespace are its parts. -/
theorem folder_join (h : PartsOfName parts) :
    ClassNames.folder (join "\\" parts) = parts.flatMap (· ++ ['/']) := by
  have hparts : (splitOn '\\' (join "\\" parts)).filter (· ≠ []) = parts := by
    by_cases hnil : parts = []
    · rw [hnil]
      rfl
    · have hsplit : splitOn '\\' (join ['\\'] parts) = parts :=
        splitOn_join (fun p hp => (h p hp).2.2) hnil
      have hkept : ∀ p ∈ parts, decide (p ≠ []) = true := fun p hp => decide_eq_true (h p hp).1
      exact (congrArg _ hsplit).trans (List.filter_eq_self.mpr hkept)
  exact congrArg (List.flatMap (· ++ ['/'])) hparts

theorem folder_inj (h : PartsOfName parts) (h' : PartsOfName parts') :
    ClassNames.folder (join "\\" parts) = ClassNames.folder (join "\\" parts') ↔
      parts = parts' := by
  refine ⟨fun heq => ?_, fun heq => by rw [heq]⟩
  rw [h.folder_join, h'.folder_join] at heq
  have hsplit := congrArg (splitOn '/') heq
  have hread : ∀ {ps : List Text}, PartsOfName ps →
      splitOn '/' (ps.flatMap (· ++ ['/'])) = ps ++ [[]] := by
    intro ps hps
    simpa [splitOn] using splitOn_flatMap (fun p hp => (hps p hp).2.1) []
  rw [hread h, hread h'] at hsplit
  exact List.append_cancel_right hsplit

end PartsOfName

/-! ### Controllers of a draft -/

theorem Controller.eq_of_make {c d : Controller} (h : c.make = .ok d) : d = c := by
  obtain ⟨_, -, heq⟩ := Except.map_eq_ok_iff.mp h
  exact heq.symm

namespace Draft

/-- The entries of a definition of a controller, if it is one. -/
def entries? : Value → Option Mapping
  | .null => some []
  | .mapping pairs => some pairs
  | _ => none

/-- An accepted controller has the last part of its name for a name, the others for a namespace,
and the methods of its entries. -/
theorem controller_parts {name definition : Value} {defaults : List Text} {c : Controller}
    (h : controller name definition defaults = .ok c) :
    ∃ shown, (nameParts shown).getLast? = some c.name ∧
      c.space = join "\\" (nameParts shown).dropLast ∧
      ∃ pairs, entries? definition = some pairs ∧ methods defaults pairs = .ok c.methods := by
  obtain ⟨shown, -, h⟩ := bind_eq_ok_iff.mp h
  dsimp only at h
  refine ⟨shown, ?_⟩
  split at h
  · cases h
  · rename_i last hlast
    have hread : ∀ {pairs : Mapping},
        (((methods defaults pairs).mapError .misuse).bind fun methods =>
          let d : Controller :=
            { name := last, space := join "\\" (nameParts shown).dropLast, methods }
          (d.make.mapError .ofRefusal).mapError (controllerFailure shown)) = .ok c →
        c.name = last ∧ c.space = join "\\" (nameParts shown).dropLast ∧
          methods defaults pairs = .ok c.methods := by
      intro pairs h
      obtain ⟨found, hfound, hmake⟩ := bind_eq_ok_iff.mp h
      rw [Controller.eq_of_make
        (Except.mapError_eq_ok_iff.mp (Except.mapError_eq_ok_iff.mp hmake))]
      exact ⟨rfl, rfl, Except.mapError_eq_ok_iff.mp hfound⟩
    cases definition with
    | null =>
      obtain ⟨hname, hspace, hmethods⟩ := hread h
      exact ⟨hname ▸ hlast, hspace, [], rfl, hmethods⟩
    | mapping pairs =>
      obtain ⟨hname, hspace, hmethods⟩ := hread h
      exact ⟨hname ▸ hlast, hspace, pairs, rfl, hmethods⟩
    | _ => cases h

end Draft

namespace Controller

variable {c d : Controller}

/-- A controller that an entry of a draft is read to. -/
def Drafted (c : Controller) : Prop :=
  ∃ name definition defaults, Draft.controller name definition defaults = .ok c

/-- The namespace of a controller of a draft is made of parts of a name. -/
theorem Drafted.space (h : c.Drafted) :
    ∃ parts, PartsOfName parts ∧ c.space = join "\\" parts := by
  obtain ⟨name, definition, defaults, h⟩ := h
  obtain ⟨shown, -, hspace, -⟩ := Draft.controller_parts h
  exact ⟨_, (Draft.nameParts_partsOfName shown).dropLast, hspace⟩

/-- Two controllers of drafts are of one key exactly when they are written to one file. -/
theorem Drafted.qualifiedName_eq_iff (hc : c.Drafted) (hd : d.Drafted) (s : Settings) :
    c.qualifiedName = d.qualifiedName ↔
      ControllerFile.path s c = ControllerFile.path s d := by
  obtain ⟨parts, hparts, hspace⟩ := hc.space
  obtain ⟨parts', hparts', hspace'⟩ := hd.space
  rw [qualifiedName_inj, ControllerFile.path_eq_iff, SharesFile, hspace, hspace',
    hparts.folder_inj hparts']
  refine and_congr_left fun _ => ⟨fun heq => ?_, fun heq => by rw [heq]⟩
  have hfolder := congrArg ClassNames.folder heq
  exact (hparts.folder_inj hparts').mp hfolder

end Controller

/-! ### The findings -/

namespace Check

variable {schema : Schema} {s : Settings}

/-- Whether a finding is the error about a controller that is declared twice. -/
def isDuplicate (f : Finding) : Bool :=
  f.level = .error && f.code = ("DUPLICATE_CONTROLLER" : Text)

theorem countP_findingIf {condition : Bool} {level : Severity} {code message : Text}
    {context : Mapping} (h : level ≠ .error) :
    (findingIf condition level code message context).countP isDuplicate = 0 := by
  refine List.countP_eq_zero.mpr fun f hf => ?_
  obtain ⟨-, rfl⟩ := mem_findingIf_iff.mp hf
  simp [isDuplicate, h]

/-- One controller gets the error once or not at all. -/
theorem countP_controller (before : List Controller) (c : Controller) :
    (controller schema s before c).countP isDuplicate =
      if ∃ d ∈ before, d.qualifiedName = c.qualifiedName then 1 else 0 := by
  have hfirst : ∀ message context,
      (findingIf (before.any fun d => d.qualifiedName = c.qualifiedName) .error
        "DUPLICATE_CONTROLLER" message context).countP isDuplicate =
        if ∃ d ∈ before, d.qualifiedName = c.qualifiedName then 1 else 0 := by
    intro message context
    have hany : (before.any fun d => d.qualifiedName = c.qualifiedName) = true ↔
        ∃ d ∈ before, d.qualifiedName = c.qualifiedName := by
      simp
    simp only [findingIf, hany]
    split_ifs <;> rfl
  unfold controller
  rw [List.countP_append, hfirst, Nat.add_eq_left]
  by_cases hcovers : s.covers c.space = true
  · rw [if_neg (by simp [hcovers]), List.countP_append, countP_findingIf Severity.noConfusion,
      countP_findingIf Severity.noConfusion]
  · rw [if_pos (by simp [hcovers])]
    rfl

/-- The place has a controller whose key one of the others or an earlier one has. -/
def Repeats (before cs : List Controller) (i : Fin cs.length) : Prop :=
  (∃ d ∈ before, d.qualifiedName = cs[i].qualifiedName) ∨
    ∃ j < i, cs[j].qualifiedName = cs[i].qualifiedName

instance (before cs : List Controller) : DecidablePred (Repeats before cs) :=
  fun _ => inferInstanceAs (Decidable (_ ∨ _))

theorem repeats_zero {before rest : List Controller} {c : Controller} :
    Repeats before (c :: rest) (0 : Fin (rest.length + 1)) ↔
      ∃ d ∈ before, d.qualifiedName = c.qualifiedName :=
  or_iff_left fun ⟨j, hj, _⟩ => absurd hj (Fin.not_lt_zero j)

/-- For the places after it, the first controller is one of those before. -/
theorem repeats_succ {before rest : List Controller} {c : Controller} {i : Fin rest.length} :
    Repeats before (c :: rest) i.succ ↔ Repeats (c :: before) rest i := by
  have hearlier : (∃ j < i.succ, (c :: rest)[j].qualifiedName = rest[i].qualifiedName) ↔
      c.qualifiedName = rest[i].qualifiedName ∨
        ∃ j < i, rest[j].qualifiedName = rest[i].qualifiedName := by
    rw [Fin.exists_fin_succ]
    simp
  change _ ∨ (∃ j < i.succ, (c :: rest)[j].qualifiedName = rest[i].qualifiedName) ↔ _
  rw [hearlier, Repeats, List.exists_mem_cons_iff]
  exact (or_left_comm).trans or_assoc.symm

/-- The check reports each controller that repeats one, and once. -/
theorem countP_controllersFrom (before cs : List Controller) :
    (controllersFrom schema s before cs).countP isDuplicate =
      (Finset.univ.filter (Repeats before cs)).card := by
  induction cs generalizing before with
  | nil => rfl
  | cons c rest ih =>
    have hsplit := Fin.card_filter_univ_succ fun i : Fin (rest.length + 1) =>
      Repeats before (c :: rest) i
    simp only [repeats_zero, repeats_succ] at hsplit
    rw [controllersFrom, List.countP_append, countP_controller, ih]
    refine Eq.trans ?_ hsplit.symm
    split_ifs
    · exact Nat.add_comm _ _
    · exact Nat.zero_add _

/-- Of the controllers that a draft declares, the check for repeated ones reports as many as have
the file of an earlier one, since two of them have one key exactly when they have one file. -/
theorem duplicates_eq_shared_files (h : ∀ c ∈ schema.controllers, c.Drafted) (s : Settings) :
    (controllers schema s).findings.countP isDuplicate =
        (Finset.univ.filter fun i : Fin schema.controllers.length => ∃ j < i,
          ControllerFile.path s schema.controllers[j] =
            ControllerFile.path s schema.controllers[i]).card ∧
      ∀ c ∈ schema.controllers, ∀ d ∈ schema.controllers,
        c.qualifiedName = d.qualifiedName ↔
          ControllerFile.path s c = ControllerFile.path s d := by
  have hkeys : ∀ c ∈ schema.controllers, ∀ d ∈ schema.controllers,
      c.qualifiedName = d.qualifiedName ↔
        ControllerFile.path s c = ControllerFile.path s d :=
    fun c hc d hd => (h c hc).qualifiedName_eq_iff (h d hd) s
  refine ⟨?_, hkeys⟩
  rw [controllers, countP_controllersFrom]
  refine congrArg Finset.card (Finset.filter_congr fun i _ => ?_)
  have hnone : ¬∃ d ∈ ([] : List Controller),
      d.qualifiedName = schema.controllers[i].qualifiedName := by
    simp
  refine (or_iff_right hnone).trans (exists_congr fun j => and_congr_right fun _ => ?_)
  exact hkeys _ (List.getElem_mem _) _ (List.getElem_mem _)

/-- Controllers of a draft, the first two of which have one class in one namespace. -/
def blogPosts : Schema :=
  { controllers := [{ name := "blog_post", methods := ["index"] }, { name := "BlogPostController" },
      { name := "BlogPost", space := "Api\\V1" }] }

theorem blogPosts_duplicates :
    (∀ c ∈ blogPosts.controllers, c.Drafted) ∧
      (controllers blogPosts {}).findings.countP isDuplicate = 1 ∧
      (Finset.univ.filter fun i : Fin blogPosts.controllers.length => ∃ j < i,
        ControllerFile.path {} blogPosts.controllers[j] =
          ControllerFile.path {} blogPosts.controllers[i]).card = 1 := by
  have hdrafted : ∀ c ∈ blogPosts.controllers, c.Drafted := by
    refine List.forall_mem_cons.mpr ⟨⟨.text "Api/blog_post", .mapping [(.text "index", .null)], [],
      rfl⟩, List.forall_mem_cons.mpr ⟨⟨.text "/Api\\BlogPostController", .null, [], rfl⟩,
        List.forall_mem_singleton.mpr ⟨.text "Api/V1//BlogPost", .null, [], rfl⟩⟩⟩
  have hcount : (controllers blogPosts {}).findings.countP isDuplicate = 1 := by decide +kernel
  exact ⟨hdrafted, hcount, (duplicates_eq_shared_files hdrafted {}).1.symm.trans hcount⟩

end Check

end ApiScaffold
