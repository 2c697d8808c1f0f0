import ApiScaffold.Imports
import Mathlib.Data.Char
import Mathlib.Data.List.Lex
import Mathlib.Data.Set.Insert

/-!
# Claims on imports as a set of pairs

A registry of imports stands for a set of pairs of a name and an owner. Each call changes this set
in one way: a claim puts one pair in, a release takes one pair out, a removal takes all pairs of a
name out. Whatever calls were made before, the names that are listed are those with a pair left.
Which classes a file has to import is not a matter of this module.
-/
namespace ApiScaffold

open Text

namespace Text

theorem le_iff_not_lex {s t : Text} : le s t = true ↔ ¬List.Lex (· < ·) t s := by
  induction s generalizing t with
  | nil => simp [le]
  | cons a s ih =>
    cases t with
    | nil => simp [le]
    | cons b t =>
      rw [le, List.cons_lex_cons_iff]
      by_cases hab : a = b
      · rw [if_pos hab, ih]
        simp [hab]
      · have hlt : a.val < b.val ↔ a < b := Iff.rfl
        rw [if_neg hab, decide_eq_true_iff, hlt]
        simp [Ne.symm hab, lt_iff_le_and_ne, hab]

theorem le_iff {s t : Text} : le s t = true ↔ s ≤ t := by
  rw [← not_lt]
  exact le_iff_not_lex

theorem sort_perm (texts : List Text) : (sort texts).Perm texts := List.mergeSort_perm texts le

theorem pairwise_sort (texts : List Text) : (sort texts).Pairwise (· ≤ ·) := by
  have htrans : ∀ a b c : Text, le a b = true → le b c = true → le a c = true := by
    intro a b c hab hbc
    exact le_iff.mpr (le_trans (le_iff.mp hab) (le_iff.mp hbc))
  have htotal : ∀ a b : Text, (le a b || le b a) = true := by
    intro a b
    rw [Bool.or_eq_true, le_iff, le_iff]
    exact le_total a b
  have hsorted := List.pairwise_mergeSort htrans htotal texts
  exact hsorted.imp le_iff.mp

/-- Different texts are sorted strictly. -/
theorem pairwise_lt_sort {texts : List Text} (h : texts.Nodup) : (sort texts).Pairwise (· < ·) := by
  have hnodup : (sort texts).Nodup := (sort_perm texts).nodup_iff.mpr h
  exact (pairwise_sort texts).imp₂ (fun _ _ hle hne => lt_of_le_of_ne hle hne) hnodup

end Text

namespace Imports

/-- The pairs of a name and an owner that claims it. -/
def pairs (r : Imports) : Set (Text × Text) :=
  {p | ∃ claim ∈ r.claims, claim.1 = p.1 ∧ p.2 ∈ claim.2}

/-- Every name is kept once, and only as long as somebody claims it. -/
structure WellKept (r : Imports) : Prop where
  distinct : (r.claims.map (·.1)).Nodup
  owned : ∀ claim ∈ r.claims, claim.2 ≠ []

inductive Call where
  | add (name : Text) (owner : Option Text)
  | release (name : Text) (owner : Option Text)
  | remove (name : Text)
  deriving DecidableEq, Repr

/-- What a call makes of a registry. -/
def perform (r : Imports) : Call → Imports
  | .add name owner => r.add name owner
  | .release name owner => r.release name owner
  | .remove name => r.remove name

/-- What a call makes of a set of pairs. -/
def Call.effect (ps : Set (Text × Text)) : Call → Set (Text × Text)
  | add name owner => insert (normalName name, ownerOf owner) ps
  | release name owner => ps \ {(normalName name, ownerOf owner)}
  | remove name => {p ∈ ps | p.1 ≠ normalName name}

/-- The registry after calls on an empty one. -/
def after (calls : List Call) : Imports := calls.foldl perform {}

/-- The set of pairs after calls on the empty one. -/
def claimed (calls : List Call) : Set (Text × Text) := calls.foldl Call.effect ∅

/-! ### One call -/

theorem mem_pairs {r : Imports} {name owner : Text} :
    (name, owner) ∈ r.pairs ↔ ∃ claim ∈ r.claims, claim.1 = name ∧ owner ∈ claim.2 :=
  Iff.rfl

theorem mem_addOwner {owners : List Text} {owner other : Text} :
    other ∈ (if owners.contains owner then owners else owners ++ [owner]) ↔
      other = owner ∨ other ∈ owners := by
  split_ifs with h
  · have hmem : owner ∈ owners := by simpa using h
    constructor
    · exact Or.inr
    · rintro (rfl | hother)
      · exact hmem
      · exact hother
  · rw [List.mem_append, List.mem_singleton]
    exact or_comm

theorem exists_mem_addClaim {name owner other who : Text} {claims : List (Text × List Text)} :
    (∃ claim ∈ addClaim name owner claims, claim.1 = other ∧ who ∈ claim.2) ↔
      (other = name ∧ who = owner) ∨ ∃ claim ∈ claims, claim.1 = other ∧ who ∈ claim.2 := by
  induction claims with
  | nil => simp [addClaim, eq_comm]
  | cons claim rest ih =>
    obtain ⟨key, owners⟩ := claim
    unfold addClaim
    by_cases hkey : key = name
    · subst hkey
      rw [if_pos rfl]
      simp only [List.mem_cons, exists_eq_or_imp, mem_addOwner, and_or_left, or_assoc,
        eq_comm (b := other)]
    · rw [if_neg hkey]
      simp only [List.mem_cons, exists_eq_or_imp, ih, or_left_comm]

theorem pairs_add (r : Imports) (name : Text) (owner : Option Text) :
    (r.add name owner).pairs = insert (normalName name, ownerOf owner) r.pairs := by
  ext ⟨other, who⟩
  rw [mem_pairs, Set.mem_insert_iff, Prod.mk.injEq, mem_pairs]
  exact exists_mem_addClaim

/-- What a release leaves of the owners of a name. -/
def released (name owner : Text) (claim : Text × List Text) : List Text :=
  if claim.1 = name then claim.2.filter (· ≠ owner) else claim.2

theorem mem_released {name owner who : Text} {claim : Text × List Text} :
    who ∈ released name owner claim ↔ who ∈ claim.2 ∧ ¬(claim.1 = name ∧ who = owner) := by
  unfold released
  split_ifs with h <;> simp [h]

theorem mem_claims_release {r : Imports} {name : Text} {owner : Option Text}
    {claim : Text × List Text} :
    claim ∈ (r.release name owner).claims ↔ ∃ old ∈ r.claims,
      claim = (old.1, released (normalName name) (ownerOf owner) old) ∧
        (old.1 = normalName name → claim.2 ≠ []) := by
  unfold release
  rw [List.mem_filterMap]
  refine exists_congr fun old => and_congr_right fun _ => ?_
  unfold released
  by_cases hname : old.1 = normalName name
  · simp only [if_pos hname]
    split_ifs with hnone
    · constructor
      · exact fun hno => by cases hno
      · rintro ⟨rfl, hleft⟩
        exact absurd hnone (hleft hname)
    · simp only [Option.some.injEq, eq_comm (b := claim), hname, true_imp_iff]
      constructor
      · rintro rfl
        exact ⟨rfl, hnone⟩
      · exact And.left
  · simp [hname, eq_comm]

theorem pairs_release (r : Imports) (name : Text) (owner : Option Text) :
    (r.release name owner).pairs = r.pairs \ {(normalName name, ownerOf owner)} := by
  ext ⟨other, who⟩
  rw [mem_pairs, Set.mem_sdiff, mem_pairs, Set.mem_singleton_iff, Prod.mk.injEq]
  constructor
  · rintro ⟨claim, hclaim, rfl, hwho⟩
    obtain ⟨old, hold, rfl, -⟩ := mem_claims_release.mp hclaim
    obtain ⟨hmem, hother⟩ := mem_released.mp hwho
    exact ⟨⟨old, hold, rfl, hmem⟩, hother⟩
  · rintro ⟨⟨old, hold, rfl, hmem⟩, hother⟩
    have hwho : who ∈ released (normalName name) (ownerOf owner) old :=
      mem_released.mpr ⟨hmem, hother⟩
    have hclaim := mem_claims_release.mpr ⟨old, hold, rfl, fun _ => List.ne_nil_of_mem hwho⟩
    exact ⟨_, hclaim, rfl, hwho⟩

theorem pairs_remove (r : Imports) (name : Text) :
    (r.remove name).pairs = {p ∈ r.pairs | p.1 ≠ normalName name} := by
  ext ⟨other, who⟩
  rw [mem_pairs, Set.mem_sep_iff, mem_pairs]
  constructor
  · rintro ⟨claim, hclaim, rfl, hwho⟩
    obtain ⟨hmem, hne⟩ := List.mem_filter.mp hclaim
    exact ⟨⟨claim, hmem, rfl, hwho⟩, of_decide_eq_true hne⟩
  · rintro ⟨⟨claim, hmem, rfl, hwho⟩, hne⟩
    exact ⟨claim, List.mem_filter.mpr ⟨hmem, decide_eq_true hne⟩, rfl, hwho⟩

/-- A call does to the pairs what it does to a set of them. -/
theorem pairs_perform (r : Imports) (call : Call) :
    (r.perform call).pairs = call.effect r.pairs := by
  cases call with
  | add name owner => exact pairs_add r name owner
  | release name owner => exact pairs_release r name owner
  | remove name => exact pairs_remove r name

/-! ### What every call keeps -/

theorem names_addClaim (name owner : Text) (claims : List (Text × List Text)) :
    (addClaim name owner claims).map (·.1) =
      if name ∈ claims.map (·.1) then claims.map (·.1) else claims.map (·.1) ++ [name] := by
  induction claims with
  | nil => simp [addClaim]
  | cons claim rest ih =>
    obtain ⟨key, owners⟩ := claim
    unfold addClaim
    by_cases hkey : key = name
    · simp [hkey]
    · have hmem : name ∈ key :: rest.map (·.1) ↔ name ∈ rest.map (·.1) := by
        simp [Ne.symm hkey]
      rw [if_neg hkey, List.map_cons, ih, List.map_cons]
      simp only [hmem]
      split_ifs <;> rfl

theorem owned_addClaim {name owner : Text} {claims : List (Text × List Text)}
    (h : ∀ claim ∈ claims, claim.2 ≠ []) : ∀ claim ∈ addClaim name owner claims, claim.2 ≠ [] := by
  induction claims with
  | nil => simp [addClaim]
  | cons claim rest ih =>
    obtain ⟨hclaim, hrest⟩ := List.forall_mem_cons.mp h
    unfold addClaim
    by_cases hname : claim.1 = name
    · rw [if_pos hname]
      have hadded : owner ∈ (if claim.2.contains owner then claim.2 else claim.2 ++ [owner]) :=
        mem_addOwner.mpr (Or.inl rfl)
      exact List.forall_mem_cons.mpr ⟨List.ne_nil_of_mem hadded, hrest⟩
    · rw [if_neg hname]
      exact List.forall_mem_cons.mpr ⟨hclaim, ih hrest⟩

theorem WellKept.add {r : Imports} (h : r.WellKept) (name : Text) (owner : Option Text) :
    (r.add name owner).WellKept := by
  have hnames := names_addClaim (normalName name) (ownerOf owner) r.claims
  constructor
  · unfold Imports.add
    rw [hnames]
    split_ifs with hmem
    · exact h.distinct
    · have hapart : ∀ other ∈ r.claims.map (·.1), other ≠ normalName name :=
        fun other hother heq => hmem (heq ▸ hother)
      simpa [List.nodup_append, h.distinct] using hapart
  · exact owned_addClaim h.owned

theorem names_release_sublist (r : Imports) (name : Text) (owner : Option Text) :
    ((r.release name owner).claims.map (·.1)).Sublist (r.claims.map (·.1)) := by
  unfold release
  induction r.claims with
  | nil => exact List.Sublist.refl _
  | cons claim rest ih =>
    rw [List.filterMap_cons, List.map_cons]
    split
    · exact ih.cons claim.1
    · rename_i left hleft
      have hname : left.1 = claim.1 := by
        dsimp only at hleft
        split_ifs at hleft
        · rw [← Option.some.inj hleft]
        · rw [Option.some.inj hleft]
      rw [List.map_cons, hname]
      exact ih.cons_cons claim.1

theorem WellKept.release {r : Imports} (h : r.WellKept) (name : Text) (owner : Option Text) :
    (r.release name owner).WellKept := by
  constructor
  · exact h.distinct.sublist (names_release_sublist r name owner)
  · intro claim hclaim
    obtain ⟨old, hold, rfl, hleft⟩ := mem_claims_release.mp hclaim
    by_cases hname : old.1 = normalName name
    · exact hleft hname
    · have hsame : released (normalName name) (ownerOf owner) old = old.2 := if_neg hname
      rw [hsame]
      exact h.owned old hold

theorem WellKept.remove {r : Imports} (h : r.WellKept) (name : Text) :
    (r.remove name).WellKept := by
  have hsub : (r.remove name).claims.Sublist r.claims := List.filter_sublist
  constructor
  · exact h.distinct.sublist (hsub.map _)
  · intro claim hclaim
    exact h.owned claim (hsub.subset hclaim)

theorem WellKept.perform {r : Imports} (h : r.WellKept) (call : Call) :
    (r.perform call).WellKept := by
  cases call with
  | add name owner => exact h.add name owner
  | release name owner => exact h.release name owner
  | remove name => exact h.remove name

theorem wellKept_empty : WellKept {} := ⟨List.nodup_nil, by simp⟩

/-! ### What a well kept registry answers -/

theorem WellKept.exists_owner_iff {r : Imports} (h : r.WellKept) {name : Text} :
    (∃ owner, (name, owner) ∈ r.pairs) ↔ name ∈ r.claims.map (·.1) := by
  rw [List.mem_map]
  constructor
  · rintro ⟨owner, claim, hclaim, hname, -⟩
    exact ⟨claim, hclaim, hname⟩
  · rintro ⟨claim, hclaim, hname⟩
    obtain ⟨owner, howner⟩ := List.exists_mem_of_ne_nil _ (h.owned claim hclaim)
    exact ⟨owner, claim, hclaim, hname, howner⟩

theorem WellKept.contains_iff {r : Imports} (h : r.WellKept) (name : Text) :
    r.contains name = true ↔ ∃ owner, (normalName name, owner) ∈ r.pairs := by
  rw [h.exists_owner_iff, contains, List.any_eq_true, List.mem_map]
  simp

theorem WellKept.mem_names_iff {r : Imports} (h : r.WellKept) (name : Text) :
    name ∈ r.names ↔ ∃ owner, (name, owner) ∈ r.pairs := by
  rw [h.exists_owner_iff]
  exact (sort_perm _).mem_iff

theorem WellKept.names_pairwise {r : Imports} (h : r.WellKept) : r.names.Pairwise (· < ·) :=
  pairwise_lt_sort h.distinct

theorem size_eq (r : Imports) : r.size = r.names.length := by
  have hlength := (sort_perm (r.claims.map (·.1))).length_eq
  rw [List.length_map] at hlength
  exact hlength.symm

/-! ### Calls in a row -/

/-- What holds after calls holds after one more: the pairs follow the set, and the registry stays
well kept. -/
theorem foldl_perform {r : Imports} {ps : Set (Text × Text)} (h : r.WellKept) (hps : r.pairs = ps)
    (calls : List Call) :
    (calls.foldl perform r).WellKept ∧
      (calls.foldl perform r).pairs = calls.foldl Call.effect ps := by
  induction calls generalizing r ps with
  | nil => exact ⟨h, hps⟩
  | cons call rest ih =>
    have hstep : (r.perform call).pairs = call.effect ps := by rw [pairs_perform, hps]
    exact ih (h.perform call) hstep

/-- After any calls on an empty registry, its pairs are those of the set after the same calls. A
name is contained as long as an owner has a pair for it, and no name is kept without an owner. The
names are listed in strict order, they are counted by the size, and there is one line for each. -/
theorem after_refines (calls : List Call) :
    (after calls).pairs = claimed calls ∧
      (∀ name, (after calls).contains name = true ↔
        ∃ owner, (normalName name, owner) ∈ claimed calls) ∧
      (∀ claim ∈ (after calls).claims, claim.2 ≠ []) ∧
      (∀ name, name ∈ (after calls).names ↔ ∃ owner, (name, owner) ∈ claimed calls) ∧
      (after calls).names.Pairwise (· < ·) ∧
      (after calls).size = (after calls).names.length ∧
      (after calls).render =
        join "\n" ((after calls).names.map fun name => "use " ++ name ++ ";") := by
  have hempty : ({} : Imports).pairs = ∅ := by
    ext p
    simp [pairs]
  obtain ⟨hkept, hpairs⟩ := foldl_perform wellKept_empty hempty calls
  have hcontains := hkept.contains_iff
  have hnames := hkept.mem_names_iff
  rw [hpairs] at hcontains hnames
  exact ⟨hpairs, hcontains, hkept.owned, hnames, hkept.names_pairwise, size_eq _, rfl⟩

end Imports

end ApiScaffold
