import ApiScaffold.Schema.Basic
import ApiScaffold.Settings
import Mathlib.Tactic.Common

/-!
# Checks that refuse without misuse

A check of a record refuses what it does not like by issues, which belong to the draft. The
checks of columns, entities, controllers, schemas and settings never come upon a value that they
cannot even look at; of all fields only the relationships of an entity can, when it is read from
a mapping as a whole.
-/
namespace ApiScaffold

open Text

namespace Checked

variable {α β : Type}

/-- The check ends with a result or with issues. -/
def Clean (x : Checked α) : Prop := ∀ m, x ≠ .error (.misuse m)

@[simp] theorem clean_ok (a : α) : Clean (.ok a) := fun _ h => by cases h

@[simp] theorem clean_issues (found : List Issue) : Clean (.error (.issues found) : Checked α) :=
  fun _ h => by cases h

@[simp] theorem clean_refuse (fault : Fault) : Clean (refuse fault : Checked α) :=
  clean_issues _

variable {x : Checked α} {y : Checked β}

theorem Clean.map (h : x.Clean) (f : α → β) : Clean (x.map f) := by
  intro m hm
  cases x with
  | ok a => cases hm
  | error e => cases hm; exact h m rfl

theorem Clean.bind {f : α → Checked β} (h : x.Clean) (hf : ∀ a, (f a).Clean) :
    Clean (x.bind f) := by
  intro m hm
  cases x with
  | ok a => exact hf a m hm
  | error e => cases hm; exact h m rfl

theorem Clean.below (h : x.Clean) (step : Step) : Clean (x.below step) := by
  cases x with
  | ok a => exact clean_ok a
  | error e =>
    cases e with
    | issues found => exact clean_issues _
    | misuse m => exact absurd rfl (h m)

theorem Clean.both (hx : x.Clean) (hy : y.Clean) : Clean (x.both y) := by
  intro m hm
  unfold Checked.both at hm
  split at hm <;> cases hm
  · exact hx _ rfl
  · exact hy _ rfl
  · exact hx _ rfl
  · exact hy _ rfl

theorem Clean.mapM {f : α → Checked β} (hf : ∀ a, (f a).Clean) (l : List α) :
    Clean (l.mapM f) := by
  induction l with
  | nil => exact clean_ok _
  | cons a rest ih =>
    rw [List.mapM_cons]
    exact (hf a).bind fun b => ih.bind fun bs => clean_ok _

theorem Clean.all {parts : List (Checked α)} (h : ∀ part ∈ parts, part.Clean) :
    Clean (Checked.all parts) := by
  induction parts with
  | nil => exact clean_ok _
  | cons part rest ih =>
    have hrest := ih fun p hp => h p (List.mem_cons_of_mem part hp)
    exact ((h part List.mem_cons_self).both hrest).map _

end Checked

open Checked

namespace Check

variable {α : Type}

theorem text_clean (v : Value) : (Check.text v).Clean := by
  unfold Check.text
  split
  · exact clean_ok _
  · split <;> simp
  · exact clean_refuse _

theorem nonEmptyText_clean (v : Value) : (nonEmptyText v).Clean := by
  unfold nonEmptyText
  split
  · exact clean_refuse _
  · exact text_clean v

theorem boolOfWord_clean (word : Text) : (boolOfWord word).Clean := by
  unfold boolOfWord
  simp only
  split_ifs <;> simp

theorem boolOfInteger_clean (i : Int) : (boolOfInteger i).Clean := by
  unfold boolOfInteger
  split_ifs <;> simp

theorem bool_clean (v : Value) : (bool v).Clean := by
  unfold bool
  split
  · exact clean_ok _
  · exact boolOfWord_clean _
  · split
    · exact boolOfWord_clean _
    · exact clean_refuse _
  · exact boolOfInteger_clean _
  · split
    · exact boolOfInteger_clean _
    · exact clean_refuse _
  · exact clean_refuse _

theorem listFrom_clean {item : Value → Checked α} (h : ∀ v, (item v).Clean) (i : Nat)
    (items : List Value) : ∀ part ∈ listFrom item i items, part.Clean := by
  induction items generalizing i with
  | nil => simp [listFrom]
  | cons v rest ih => exact List.forall_mem_cons.mpr ⟨(h v).below _, ih (i + 1)⟩

theorem list_clean {item : Value → Checked α} (h : ∀ v, (item v).Clean) (v : Value) :
    (Check.list item v).Clean := by
  cases v with
  | list items | tuple items | set items => exact Clean.all (listFrom_clean h 0 items)
  | _ => exact clean_refuse _

theorem entries_clean {item : Value → Checked α} (h : ∀ v, (item v).Clean) (v : Value) :
    (entries item v).Clean := by
  unfold entries
  split
  · refine (Clean.all fun part hpart => ?_).map _
    obtain ⟨p, -, rfl⟩ := List.mem_map.mp hpart
    exact (((text_clean p.1).below _).below _).both ((h p.2).below _)
  · exact clean_refuse _

theorem field_clean {check : Value → Checked α} (h : ∀ v, (check v).Clean) (name : Text)
    (default? : Option α) (data : Mapping) : (field name default? check data).Clean := by
  refine Clean.below ?_ _
  split
  · exact h _
  · exact clean_ok _
  · exact clean_refuse _

theorem strangers_clean (fields : List Text) (data : Mapping) :
    (strangers fields data).Clean := by
  unfold strangers
  simp only
  split_ifs <;> simp

/-- A record is checked cleanly if its fields are. -/
theorem record_clean {read : Mapping → Checked α} (h : ∀ data, (read data).Clean)
    (kind : RecordKind) (fields : List Text) (v : Value) :
    (record kind fields read v).Clean := by
  unfold record
  split
  · exact ((h _).both (strangers_clean _ _)).map _
  · exact clean_refuse _

end Check

open Check

theorem Column.make_clean (name dataType : Text) (nullable : Bool) (attributes : Mapping) :
    (Column.make name dataType nullable attributes).Clean := by
  unfold Column.make Column.check
  refine record_clean (fun data => ?_) _ _ _
  have hattributes (v : Value) : (Column.attributesOf v).Clean :=
    (entries_clean clean_ok v).map _
  have hname := field_clean nonEmptyText_clean "name" none data
  have htype := field_clean nonEmptyText_clean "data_type" (some "string") data
  have hnullable := field_clean bool_clean "nullable" (some false) data
  exact (hname.both (htype.both (hnullable.both (field_clean hattributes _ _ data)))).map _

namespace Relationships

theorem nameOf_clean (v : Value) : (nameOf v).Clean := by
  unfold nameOf Value.written
  split_ifs
  · exact clean_issues _
  · exact clean_ok _

theorem named_clean (declared : RelationshipKind × Targets) : (named declared).Clean := by
  refine (Clean.map ?_ _).map _
  split
  · exact clean_ok _
  · exact Clean.mapM nameOf_clean _

end Relationships

theorem Entity.make_clean (e : Entity)
    (declared : List (RelationshipKind × Relationships.Targets)) : (e.make declared).Clean := by
  have hrelationships : Checked.Clean (declared.mapM Relationships.named) :=
    Clean.mapM Relationships.named_clean declared
  refine (((nonEmptyText_clean _).below _).both (hrelationships.below _)).bind fun _ => ?_
  unfold Entity.distinctColumns
  split <;> simp

theorem Controller.make_clean (c : Controller) : c.make.Clean :=
  ((nonEmptyText_clean _).below _).map _

theorem Schema.distinctEntities_clean (s : Schema) : s.distinctEntities.Clean := by
  unfold Schema.distinctEntities
  split <;> simp

namespace Setting

theorem namespaceOf_clean (v : Value) : (namespaceOf v).Clean := by
  refine (text_clean v).bind fun t => ?_
  dsimp only
  split_ifs <;> simp

theorem methodsOf_clean (v : Value) : (methodsOf v).Clean := by
  refine (list_clean text_clean v).bind fun t => ?_
  split_ifs <;> simp

theorem strategyOf_clean (v : Value) : (strategyOf v).Clean := by
  unfold strategyOf
  split
  · split_ifs <;> simp
  · exact clean_refuse _

theorem read_clean (setting : Setting) (v : Value) : (setting.read v).Clean := by
  cases setting with
  | rootNamespace => exact (namespaceOf_clean v).map _
  | appPath => exact (nonEmptyText_clean v).map _
  | modelsNamespace | controllerNamespace => exact (text_clean v).map _
  | stubPaths | enumSuffixes | sortableColumns => exact (list_clean text_clean v).map _
  | generateControllers | generateData | controllersForAllModels | documentForeignKeys
  | atomicWrites => exact (bool_clean v).map _
  | defaultControllerMethods | methodVerbs => exact (methodsOf_clean v).map _
  | enumStrategy => exact (strategyOf_clean v).map _
  | enumClasses => exact (entries_clean text_clean v).map _

end Setting

namespace Configuration

theorem readFrom_clean (data : Mapping) (settings : List Setting) :
    (readFrom data settings).Clean := by
  induction settings with
  | nil => exact clean_ok _
  | cons setting rest ih =>
    refine (Clean.both ?_ ih).map _
    split
    · exact clean_ok _
    · exact (setting.read_clean _).below _

theorem check_clean (v : Value) : (check v).Clean :=
  record_clean (fun data => (readFrom_clean data _).map _) _ _ v

end Configuration

end ApiScaffold
