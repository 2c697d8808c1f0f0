import ApiScaffold.Proofs.EntityLookup
import ApiScaffold.Proofs.Rendering
import Mathlib.Data.List.Perm.Basic

/-!
# Schemas in another order

The order of the entities and controllers of a schema decides the order of the jobs and nothing
else. A name refers to the same entity, since entities have different names; the same entities lack
a controller; and what a job comes to does not depend on the jobs before it, since the stubs that
they looked up could as well be read again. So the same files are made, in another order.
-/
namespace ApiScaffold

/-- The same entities and the same controllers, in other orders. -/
structure Schema.Shuffled (schema schema' : Schema) : Prop where
  entities : schema'.entities.Perm schema.entities
  controllers : schema'.controllers.Perm schema.controllers

namespace Schema.Shuffled

variable {schema schema' : Schema}

theorem symm (h : schema.Shuffled schema') : schema'.Shuffled schema :=
  ⟨h.entities.symm, h.controllers.symm⟩

theorem entityNames (h : schema.Shuffled schema') :
    schema'.entityNames.Perm schema.entityNames :=
  h.entities.map _

theorem entity?_eq (h : schema.Shuffled schema') (hnames : schema.entityNames.Nodup)
    (name : Text) : schema'.entity? name = schema.entity? name := by
  have hnames' : schema'.entityNames.Nodup := h.entityNames.nodup_iff.mpr hnames
  ext e
  rw [entity?_eq_some_iff hnames, entity?_eq_some_iff hnames', RefersTo, RefersTo,
    h.entities.mem_iff, h.entityNames.mem_iff]

end Schema.Shuffled

namespace Job

variable {schema schema' : Schema} {look : Lookup} {s : Settings}

/-! ## The jobs -/

theorem declared_perm (h : schema.Shuffled schema') (s : Settings) :
    (declared schema' s).Perm (declared schema s) :=
  h.controllers.filter _

/-- Which entities lack a controller depends on the declared ones as a set. -/
theorem unserved_perm (h : schema.Shuffled schema') (s : Settings) :
    (unserved schema' s).Perm (unserved schema s) := by
  have hmodels : ((declared schema' s).map Controller.modelName).Perm
      ((declared schema s).map Controller.modelName) := (declared_perm h s).map _
  have hserved : ∀ name, ((declared schema' s).map Controller.modelName).contains name =
      ((declared schema s).map Controller.modelName).contains name := by
    intro name
    rw [Bool.eq_iff_iff, List.contains_iff_mem, List.contains_iff_mem, hmodels.mem_iff]
  unfold unserved
  split_ifs
  · simp only [hserved]
    exact h.entities.filter _
  · exact .refl _

theorem controllers_perm (h : schema.Shuffled schema') (s : Settings) :
    (controllers schema' s).Perm (controllers schema s) := by
  rw [controllers_eq, controllers_eq]
  exact (declared_perm h s).append ((unserved_perm h s).map _)

theorem all_perm (h : schema.Shuffled schema') (hnames : schema.entityNames.Nodup)
    (s : Settings) : (all schema' s).Perm (all schema s) := by
  have hcontrollers : (controllerJobs schema' s).Perm (controllerJobs schema s) := by
    unfold controllerJobs
    simp only [h.entity?_eq hnames]
    split_ifs
    · exact (controllers_perm h s).map _
    · exact .refl _
  have hdata : (dataJobs schema' s).Perm (dataJobs schema s) := by
    unfold dataJobs
    split_ifs
    · exact h.entities.map _
    · exact .refl _
  rw [all_eq, all_eq]
  exact hcontrollers.append hdata

/-! ## The files -/

/-- Jobs in another order come to the same outcomes in that order. -/
theorem outcomes_perm {site : Site} {jobs jobs' : List Job} {outs : List Outcome}
    (h : jobs'.Perm jobs) (houts : outcomes look s site.now jobs = .ok outs) :
    ∃ outs', outcomes look s site.now jobs' = .ok outs' ∧ outs'.Perm outs := by
  obtain ⟨outs', hall, hperm⟩ := List.perm_comp_forall₂ h (outcomes_eq_ok_iff.mp houts)
  exact ⟨outs', outcomes_eq_ok_iff.mpr hall, hperm⟩

/-- Two renderings fail both, or make the same files, maybe in another order. -/
def SameFiles : Except Failure (List Artifact) → Except Failure (List Artifact) → Prop
  | .ok arts, .ok arts' => arts'.Perm arts
  | .error _, .error _ => True
  | _, _ => False

theorem renderSchema_perm (h : schema.Shuffled schema') (hnames : schema.entityNames.Nodup)
    {site : Site} {tree : Tree} {arts : List Artifact}
    (hrender : renderSchema site tree schema s = .ok arts) :
    ∃ arts', renderSchema site tree schema' s = .ok arts' ∧ arts'.Perm arts := by
  obtain ⟨outs, houts, rfl⟩ := renderSchema_ok hrender
  obtain ⟨outs', houts', hperm⟩ := outcomes_perm (all_perm h hnames s) houts
  refine ⟨outs'.filterMap Outcome.file?, ?_, hperm.filterMap _⟩
  rw [renderSchema_eq, houts']
  rfl

/-- The order of a schema does not change which files are made of it. -/
theorem sameFiles_of_shuffled (h : schema.Shuffled schema') (hnames : schema.entityNames.Nodup)
    (site : Site) (tree : Tree) (s : Settings) :
    SameFiles (renderSchema site tree schema s) (renderSchema site tree schema' s) := by
  have hnames' : schema'.entityNames.Nodup := h.entityNames.nodup_iff.mpr hnames
  cases hrender : renderSchema site tree schema s with
  | ok arts =>
    obtain ⟨arts', hrender', hperm⟩ := renderSchema_perm h hnames hrender
    rw [hrender']
    exact hperm
  | error f =>
    cases hrender' : renderSchema site tree schema' s with
    | error f' => trivial
    | ok arts' =>
      obtain ⟨arts, hno, -⟩ := renderSchema_perm h.symm hnames' hrender'
      rw [hrender] at hno
      cases hno

end Job

end ApiScaffold
