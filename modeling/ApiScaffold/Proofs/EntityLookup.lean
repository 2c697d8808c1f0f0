import ApiScaffold.Schema.Basic
import Mathlib.Data.List.Nodup

/-!
# Which entity a name refers to

A name refers to the entity of that very name, and only when there is none to the entity whose
name is its singular capitalised form. Since entities have different names, a name refers to one
entity at most.
-/
namespace ApiScaffold.Schema

variable {s : Schema} {name : Text} {e : Entity}

/-- The name is that of the entity, or no entity has it and its form is that of the entity. -/
def RefersTo (s : Schema) (name : Text) (e : Entity) : Prop :=
  e.name = name ∨ name ∉ s.entityNames ∧ e.name = entityForm name

theorem named?_some (h : s.named? name = some e) : e ∈ s.entities ∧ e.name = name :=
  ⟨List.mem_of_find?_eq_some h, by simpa using List.find?_some h⟩

theorem named?_eq_none (h : s.named? name = none) : name ∉ s.entityNames := by
  intro hmem
  obtain ⟨e, he, hname⟩ := List.mem_map.mp hmem
  exact List.find?_eq_none.mp h e he (decide_eq_true hname)

theorem named?_of_mem (hnames : s.entityNames.Nodup) (he : e ∈ s.entities) :
    s.named? e.name = some e := by
  cases h : s.named? e.name with
  | none => exact absurd (List.mem_map_of_mem he) (named?_eq_none h)
  | some d =>
    obtain ⟨hd, hname⟩ := named?_some h
    rw [List.inj_on_of_nodup_map hnames hd he hname]

theorem entity?_some (h : s.entity? name = some e) : e ∈ s.entities ∧ s.RefersTo name e := by
  unfold entity? at h
  split at h
  · rename_i hn
    cases h
    obtain ⟨hd, hname⟩ := named?_some hn
    exact ⟨hd, Or.inl hname⟩
  · rename_i hn
    obtain ⟨hd, hname⟩ := named?_some h
    exact ⟨hd, Or.inr ⟨named?_eq_none hn, hname⟩⟩

theorem entity?_eq_some_iff (hnames : s.entityNames.Nodup) :
    s.entity? name = some e ↔ e ∈ s.entities ∧ s.RefersTo name e := by
  refine ⟨entity?_some, ?_⟩
  rintro ⟨he, rfl | ⟨hno, hform⟩⟩
  · rw [entity?, named?_of_mem hnames he]
  · have hnone : s.named? name = none := by
      cases h : s.named? name with
      | none => rfl
      | some d =>
        obtain ⟨hd, rfl⟩ := named?_some h
        exact absurd (List.mem_map_of_mem hd) hno
    rw [entity?, hnone, ← hform]
    exact named?_of_mem hnames he

end ApiScaffold.Schema
