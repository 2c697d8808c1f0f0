import ApiScaffold.AllowList
import ApiScaffold.Proofs.DraftOrder
import ApiScaffold.Proofs.ReadBackSettings

/-!
# Names to sort by

The names that a controller lets a query sort by are taken from a configured list, of which only
those are kept that the entity has, and `id` is put behind them if it is not among them. A name is
listed as often as the configured list has it, and a configuration takes any list. So no name is
listed twice exactly when that list repeats none that the entity has.
-/
namespace ApiScaffold

open Text

namespace Configuration

/-- A setting alone makes a configuration, in which it has the value that it takes. -/
theorem exists_check_single {f : Setting} {v w : Value} (h : f.validated v = .ok w) :
    ∃ c, check (.mapping [(.text f.text, v)]) = .ok c ∧ c.settings.value f = w := by
  have hdefault : check (.mapping []) = .ok {} := rfl
  exact check_insert hdefault h

theorem exists_sortableColumns (names : List Text) : ∃ c,
    check (.mapping [(.text "sortable_columns", .list (names.map .text))]) = .ok c ∧
      c.settings.sortableColumns = names := by
  have hread : Setting.sortableColumns.validated (.list (names.map .text)) =
      .ok (.list (names.map .text)) :=
    congrArg (Except.map _) (congrArg (Except.map _) (Check.list_texts names))
  obtain ⟨c, hcheck, hvalue⟩ := exists_check_single hread
  have htexts := Value.list.inj hvalue
  exact ⟨c, hcheck, List.map_injective_iff.mpr (fun _ _ => Value.text.inj) htexts⟩

end Configuration

namespace AllowList

/-- A name that the records of an entity can be sorted by: a column, or the time of creation if
that is kept. -/
def SortsBy (e : Entity) (name : Text) : Prop :=
  name ∈ e.columnNames ∨ e.timestamps = true ∧ name = ("created_at" : Text)

instance (e : Entity) : DecidablePred (SortsBy e) := fun _ => inferInstanceAs (Decidable (_ ∨ _))

/-- The names of a list that an entity has, in their order, and `id` behind them unless it is
one of them. -/
structure Listed (e : Entity) (sortable names : List Text) : Prop where
  id_mem : ("id" : Text) ∈ names
  known : ∀ name ∈ names, name ≠ ("id" : Text) → SortsBy e name
  kept : ∀ name ∈ sortable, SortsBy e name → name ∈ names
  ordered : names.Sublist sortable ∨
    ∃ found, found.Sublist sortable ∧ ("id" : Text) ∉ found ∧ names = found ++ [("id" : Text)]

variable {e : Entity} {sortable : List Text}

theorem sorts_some : sorts (some e) sortable =
    if ("id" : Text) ∈ sortable.filter (SortsBy e ·) then sortable.filter (SortsBy e ·)
    else sortable.filter (SortsBy e ·) ++ [("id" : Text)] := by
  have hpresent : (fun name => e.columnNames.contains name ||
      (e.timestamps && name == ("created_at" : Text))) = fun name => decide (SortsBy e name) := by
    funext name
    rw [Bool.eq_iff_iff, decide_eq_true_iff, Bool.or_eq_true, Bool.and_eq_true, beq_iff_eq,
      List.contains_iff_mem]
    rfl
  unfold sorts
  simp only [hpresent, List.contains_iff_mem]

theorem listed_sorts (e : Entity) (sortable : List Text) :
    Listed e sortable (sorts (some e) sortable) := by
  have hsublist : (sortable.filter (SortsBy e ·)).Sublist sortable := List.filter_sublist
  have hmem : ∀ name, name ∈ sortable.filter (SortsBy e ·) ↔ name ∈ sortable ∧ SortsBy e name := by
    simp
  rw [sorts_some]
  split_ifs with hid
  · exact {
      id_mem := hid
      known := fun name hname _ => ((hmem name).mp hname).2
      kept := fun name hname hhas => (hmem name).mpr ⟨hname, hhas⟩
      ordered := .inl hsublist }
  · exact {
      id_mem := List.mem_append_right _ List.mem_cons_self
      known := by
        intro name hname hne
        rcases List.mem_append.mp hname with hfound | hlast
        · exact ((hmem name).mp hfound).2
        · exact absurd (List.mem_singleton.mp hlast) hne
      kept := fun name hname hhas => List.mem_append_left _ ((hmem name).mpr ⟨hname, hhas⟩)
      ordered := .inr ⟨_, hsublist, hid, rfl⟩ }

/-- The `id` that is put behind the others repeats none of them, so only the configured list can
make a name stand twice. -/
theorem nodup_sorts_iff : (sorts (some e) sortable).Nodup ↔
    ∀ name, SortsBy e name → sortable.count name ≤ 1 := by
  have hkept : (sortable.filter (SortsBy e ·)).Nodup ↔
      ∀ name, SortsBy e name → sortable.count name ≤ 1 := by
    rw [List.nodup_iff_count_le_one]
    refine forall_congr' fun name => ?_
    by_cases hname : SortsBy e name
    · have hcount : (sortable.filter (SortsBy e ·)).count name = sortable.count name :=
        List.count_filter (decide_eq_true hname)
      rw [hcount]
      exact (imp_iff_right hname).symm
    · have hnot : name ∉ sortable.filter (SortsBy e ·) := by simp [hname]
      rw [List.count_eq_zero_of_not_mem hnot]
      exact iff_of_true (Nat.zero_le 1) fun h => absurd h hname
  rw [sorts_some, ← hkept]
  split_ifs with hid
  · exact Iff.rfl
  · rw [List.nodup_append_comm, List.singleton_append, List.nodup_cons, and_iff_right hid]

/-- A configuration takes any list of names to sort by. Without an entity the time of creation and
`id` are listed. For an entity it is the names of the list that it has, in the order of the list,
and `id` last unless it is one of them; then `id` is listed once and no name twice exactly when the
list has none twice that the entity has. -/
theorem sorts_listedOnce_iff (sortable : List Text) :
    (∃ c, Configuration.check
        (.mapping [(.text "sortable_columns", .list (sortable.map .text))]) = .ok c ∧
      c.settings.sortableColumns = sortable) ∧
      sorts none sortable = (["created_at", "id"] : List Text) ∧
      ∀ e : Entity, Listed e sortable (sorts (some e) sortable) ∧
        ((sorts (some e) sortable).count ("id" : Text) = 1 ∧ (sorts (some e) sortable).Nodup ↔
          ∀ name, SortsBy e name → sortable.count name ≤ 1) := by
  refine ⟨Configuration.exists_sortableColumns sortable, rfl, fun e => ?_⟩
  have hlisted := listed_sorts e sortable
  have hid : (sorts (some e) sortable).Nodup →
      (sorts (some e) sortable).count ("id" : Text) = 1 := fun hnodup =>
    List.count_eq_one_of_mem hnodup hlisted.id_mem
  exact ⟨hlisted, (and_iff_right_of_imp hid).trans nodup_sorts_iff⟩

/-- A configuration takes a list with `id` twice, and for an entity with such a column it is listed
twice. -/
theorem id_listed_twice : ∃ c e,
    Configuration.check
        (.mapping [(.text "sortable_columns", .list [.text "id", .text "id"])]) = .ok c ∧
      Entity.check (.mapping [(.text "name", .text "Tag"),
        (.text "columns", .list [.mapping [(.text "name", .text "id")]])]) = .ok e ∧
      sorts (some e) c.settings.sortableColumns = (["id", "id"] : List Text) ∧
      (sorts (some e) c.settings.sortableColumns).count ("id" : Text) ≠ 1 ∧
      ¬(sorts (some e) c.settings.sortableColumns).Nodup :=
  ⟨{ settings := { sortableColumns := ["id", "id"] }, given := [.sortableColumns] },
    { name := "Tag", columns := [{ name := "id" }] }, rfl,
    Except.bind_eq_ok_iff.mpr ⟨_, rfl, Draft.distinctColumns_eq_ok_iff.mpr ⟨rfl, by decide⟩⟩,
    by decide⟩

end AllowList

end ApiScaffold
