import ApiScaffold.Proofs.NameGrammars
import ApiScaffold.Proofs.PathNames
import ApiScaffold.Proofs.RecognisedNames

/-!
# Controllers in nested namespaces

A configuration covers a namespace by its text, yet what counts are the segments between the
backslashes: the first ones of a covered namespace are those of the configured one. A namespace
that merely begins with the same letters has another segment there. From this the controllers of
a generation and the declared ones that a report marks as left out are told by segments alone.
-/
namespace ApiScaffold

open Text

theorem Text.splitOn_prefix_iff {sep : Char} {base t : Text} :
    splitOn sep base <+: splitOn sep t ↔ t = base ∨ base ++ [sep] <+: t := by
  constructor
  · rintro ⟨more, hmore⟩
    obtain ⟨first, rest, hbase⟩ := List.exists_cons_of_ne_nil (splitOn_ne_nil sep base)
    have ht : t = base ++ more.flatMap (sep :: ·) := calc
      t = join [sep] (splitOn sep base ++ more) := by rw [hmore, join_splitOn]
      _ = join [sep] (splitOn sep base) ++ more.flatMap (sep :: ·) := by
        rw [hbase, List.cons_append, join_eq_append, join_eq_append,
          List.flatMap_append, List.append_assoc]
      _ = base ++ more.flatMap (sep :: ·) := by rw [join_splitOn]
    cases more with
    | nil => exact Or.inl (by simpa using ht)
    | cons next others =>
      refine Or.inr ⟨next ++ others.flatMap (sep :: ·), ?_⟩
      rw [ht, List.flatMap_cons]
      simp
  · rintro (rfl | ⟨more, rfl⟩)
    · exact List.prefix_rfl
    · rw [List.append_assoc, List.singleton_append, splitOn_append_cons]
      exact List.prefix_append _ _

namespace Settings

variable {s : Settings} {space : Text}

/-- The segments of a namespace, outer backslashes aside. Inner ones may be empty. -/
def segments (space : Text) : List Text := splitOn '\\' (stripChar '\\' space)

/-- The namespace is the configured one, or nested in it at some depth. -/
def Nests (s : Settings) (space : Text) : Prop :=
  segments s.controllerNamespace <+: segments space

instance (s : Settings) : DecidablePred s.Nests :=
  fun _ => inferInstanceAs (Decidable (_ <+: _))

theorem covers_iff_nests : s.covers space = true ↔ s.Nests space := by
  unfold covers Nests segments
  rw [Text.splitOn_prefix_iff]
  simp only [beginsWith, Bool.or_eq_true, beq_iff_eq, List.isPrefixOf_iff_prefix]
  rfl

example : ¬Nests {} "ApiLegacy" ∧ Nests {} "\\Api\\V2\\Admin" := by decide

end Settings

namespace Check

variable {schema : Schema} {s : Settings}

/-- What a report says about a declared controller that is left out. -/
def leftOut (s : Settings) (c : Controller) : Finding :=
  { level := .info, code := "CONTROLLER_NOT_GENERATED",
    message := "Controller '" ++ c.qualifiedName ++ "' is outside the '" ++
      s.controllerNamespace ++ "' namespace and will be skipped.",
    context := about [("controller", c.qualifiedName)] }

/-- Whether a finding is about a controller that is left out. -/
def isLeftOut (f : Finding) : Bool := f.code = ("CONTROLLER_NOT_GENERATED" : Text)

theorem filter_isLeftOut_findingIf {condition : Bool} {level : Severity} {code message : Text}
    {context : Mapping} (hcode : code ≠ "CONTROLLER_NOT_GENERATED") :
    (findingIf condition level code message context).filter isLeftOut = [] := by
  refine List.filter_eq_nil_iff.mpr fun f hf h => ?_
  have habout : f.code = ("CONTROLLER_NOT_GENERATED" : Text) := of_decide_eq_true h
  exact hcode ((code_of_mem_findingIf hf).symm.trans habout)

theorem filter_isLeftOut_controller (before : List Controller) (c : Controller) :
    (controller schema s before c).filter isLeftOut =
      if s.Nests c.space then [] else [leftOut s c] := by
  unfold controller
  rw [List.filter_append, filter_isLeftOut_findingIf (by decide), List.nil_append]
  by_cases hnests : s.Nests c.space
  · have hcovers := Settings.covers_iff_nests.mpr hnests
    rw [if_pos hnests, if_neg (by simp [hcovers]), List.filter_append,
      filter_isLeftOut_findingIf (by decide), filter_isLeftOut_findingIf (by decide)]
    rfl
  · have hcovers : s.covers c.space = false :=
      Bool.eq_false_iff.mpr fun h => hnests (Settings.covers_iff_nests.mp h)
    rw [if_neg hnests, if_pos (by simp [hcovers])]
    rfl

theorem filter_isLeftOut_controllersFrom (before cs : List Controller) :
    (controllersFrom schema s before cs).filter isLeftOut =
      (cs.filter fun c => ¬s.Nests c.space).map (leftOut s) := by
  induction cs generalizing before with
  | nil => rfl
  | cons c rest ih =>
    rw [controllersFrom, List.filter_append, filter_isLeftOut_controller, ih, List.filter_cons]
    by_cases hnests : s.Nests c.space
    · simp [hnests]
    · simp [hnests]

end Check

namespace Job

/-- The controller that a job writes. -/
def controller? : Job → Option Controller
  | controller c _ => some c
  | data _ => none

theorem filterMap_controller?_all (schema : Schema) (s : Settings) :
    (all schema s).filterMap controller? =
      if s.generateControllers then controllers schema s else [] := by
  have hcontrollers : ∀ cs : List Controller,
      (cs.map fun c => controller c (schema.entity? c.modelName)).filterMap controller? = cs := by
    intro cs
    rw [List.filterMap_map]
    exact List.filterMap_some
  have hdata : (dataJobs schema s).filterMap controller? = [] := by
    refine List.filterMap_eq_nil_iff.mpr fun job hjob => ?_
    obtain ⟨-, e, -, rfl⟩ := mem_dataJobs.mp hjob
    rfl
  rw [all_eq, List.filterMap_append, hdata, List.append_nil, controllerJobs]
  split_ifs
  · exact hcontrollers _
  · rfl

/-- The declared controllers in the configured namespace or nested in it. -/
def nested (schema : Schema) (s : Settings) : List Controller :=
  schema.controllers.filter fun c => s.Nests c.space

theorem declared_eq_nested (schema : Schema) (s : Settings) :
    declared schema s = nested schema s := by
  refine List.filter_congr fun c _ => ?_
  rw [Bool.eq_iff_iff, decide_eq_true_iff]
  exact Settings.covers_iff_nests

/-- A generation makes the declared controllers whose namespaces begin with the segments of the
configured one, in order, and then, if every model is to have a controller, one in the configured
namespace with the default methods for each entity that is the model of none of these. The report
on controllers marks all other declared ones as left out, and only these. -/
theorem controllers_by_segments (schema : Schema) (s : Settings) :
    controllers schema s = nested schema s ++
      (if s.controllersForAllModels then
        (schema.entities.filter fun e => ∀ c ∈ nested schema s, c.modelName ≠ e.name).map
          fun e => { name := e.name, space := s.controllerNamespace,
                     methods := s.defaultControllerMethods }
      else []) ∧
    (all schema s).filterMap controller? =
      (if s.generateControllers then controllers schema s else []) ∧
    (Check.controllers schema s).findings.filter Check.isLeftOut =
      (schema.controllers.filter fun c => ¬s.Nests c.space).map (Check.leftOut s) := by
  refine ⟨?_, filterMap_controller?_all schema s, Check.filter_isLeftOut_controllersFrom [] _⟩
  rw [controllers_eq, unserved, declared_eq_nested]
  split_ifs
  · refine congrArg (fun es => _ ++ es.map (scaffold s)) (List.filter_congr fun e _ => ?_)
    rw [Bool.eq_iff_iff, decide_eq_true_iff, Bool.not_eq_true', List.contains_eq_mem,
      decide_eq_false_iff_not, List.mem_map]
    simp
  · rfl

end Job

end ApiScaffold
