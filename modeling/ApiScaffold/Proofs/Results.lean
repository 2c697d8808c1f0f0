import Mathlib.Data.List.Forall2

/-!
# Computations that come to a result

When a computation that may fail comes to a result, so did its parts, and the result is made from
theirs. A list is gone through in order: it comes to a result when each of its members does, and
otherwise fails as some member does.
-/
namespace ApiScaffold.Except

variable {ε ε' α β : Type}

theorem map_eq_ok_iff {x : Except ε α} {f : α → β} {b : β} :
    x.map f = .ok b ↔ ∃ a, x = .ok a ∧ f a = b := by
  cases x <;> simp [Except.map]

theorem bind_eq_ok_iff {x : Except ε α} {f : α → Except ε β} {b : β} :
    x.bind f = .ok b ↔ ∃ a, x = .ok a ∧ f a = .ok b := by
  cases x <;> simp [Except.bind]

theorem mapError_eq_ok_iff {x : Except ε α} {f : ε → ε'} {a : α} :
    x.mapError f = .ok a ↔ x = .ok a := by
  cases x <;> simp [Except.mapError]

theorem map_eq_error_iff {x : Except ε α} {f : α → β} {e : ε} :
    x.map f = .error e ↔ x = .error e := by
  cases x <;> simp [Except.map]

theorem bind_eq_error_iff {x : Except ε α} {f : α → Except ε β} {e : ε} :
    x.bind f = .error e ↔ x = .error e ∨ ∃ a, x = .ok a ∧ f a = .error e := by
  cases x <;> simp [Except.bind]

theorem mapError_eq_error_iff {x : Except ε α} {f : ε → ε'} {e : ε'} :
    x.mapError f = .error e ↔ ∃ m, x = .error m ∧ f m = e := by
  cases x <;> simp [Except.mapError]

theorem exists_bind_eq_ok {x : Except ε α} {f : α → Except ε β} :
    (∃ b, x.bind f = .ok b) ↔ ∃ a, x = .ok a ∧ ∃ b, f a = .ok b := by
  cases x <;> simp [Except.bind]

theorem exists_map_eq_ok {x : Except ε α} {f : α → β} :
    (∃ b, x.map f = .ok b) ↔ ∃ a, x = .ok a := by
  cases x <;> simp [Except.map]

variable {f : α → Except ε β} {l : List α} {bs : List β}

theorem mapM_cons_eq_ok_iff {a : α} :
    (a :: l).mapM f = .ok bs ↔ ∃ b rest, f a = .ok b ∧ l.mapM f = .ok rest ∧ bs = b :: rest := by
  have hstep : (a :: l).mapM f =
      (f a).bind fun b => (l.mapM f).bind fun rest => .ok (b :: rest) :=
    List.mapM_cons
  rw [hstep, bind_eq_ok_iff]
  simp only [bind_eq_ok_iff, Except.ok.injEq]
  constructor
  · rintro ⟨b, hb, rest, hrest, rfl⟩
    exact ⟨b, rest, hb, hrest, rfl⟩
  · rintro ⟨b, rest, hb, hrest, rfl⟩
    exact ⟨b, hb, rest, hrest, rfl⟩

theorem mapM_eq_ok_iff : l.mapM f = .ok bs ↔ List.Forall₂ (fun a b => f a = .ok b) l bs := by
  induction l generalizing bs with
  | nil =>
    rw [List.forall₂_nil_left_iff, List.mapM_nil]
    exact ⟨fun h => (Except.ok.inj h).symm, fun h => congrArg Except.ok h.symm⟩
  | cons a rest ih =>
    rw [mapM_cons_eq_ok_iff, List.forall₂_cons_left_iff]
    simp only [ih, exists_and_left]

theorem mem_of_mapM_eq_ok (h : l.mapM f = .ok bs) {b : β} : b ∈ bs ↔ ∃ a ∈ l, f a = .ok b := by
  induction mapM_eq_ok_iff.mp h with
  | nil => simp
  | @cons a b' rest more hb hmore ih =>
    rw [List.mem_cons, List.exists_mem_cons_iff, ih (mapM_eq_ok_iff.mpr hmore), hb,
      Except.ok.injEq, eq_comm]

theorem exists_mapM_eq_ok_iff : (∃ bs, l.mapM f = .ok bs) ↔ ∀ a ∈ l, ∃ b, f a = .ok b := by
  induction l with
  | nil => exact iff_of_true ⟨[], rfl⟩ (List.forall_mem_nil _)
  | cons a rest ih =>
    rw [List.forall_mem_cons, ← ih]
    constructor
    · rintro ⟨bs, hbs⟩
      obtain ⟨b, more, hb, hmore, -⟩ := mapM_cons_eq_ok_iff.mp hbs
      exact ⟨⟨b, hb⟩, more, hmore⟩
    · rintro ⟨⟨b, hb⟩, more, hmore⟩
      exact ⟨b :: more, mapM_cons_eq_ok_iff.mpr ⟨b, more, hb, hmore, rfl⟩⟩

theorem exists_of_mapM_eq_error {e : ε} (h : l.mapM f = .error e) : ∃ a ∈ l, f a = .error e := by
  induction l with
  | nil => cases h
  | cons a rest ih =>
    have hstep : (f a).bind (fun b => (rest.mapM f).bind fun more => .ok (b :: more)) =
        .error e :=
      List.mapM_cons.symm.trans h
    rcases bind_eq_error_iff.mp hstep with ha | ⟨b, -, hrest⟩
    · exact ⟨a, List.mem_cons_self, ha⟩
    · rcases bind_eq_error_iff.mp hrest with hrest | ⟨more, -, hno⟩
      · obtain ⟨a', ha', he⟩ := ih hrest
        exact ⟨a', List.mem_cons_of_mem a ha', he⟩
      · cases hno

end ApiScaffold.Except
