import ApiScaffold.Value.Basic
import Mathlib.Data.List.Induction
import Mathlib.Data.List.Nodup

/-!
# Mappings put into one another

A mapping is put into another pair by pair, so under a key with text the later value is found and
the earlier one is forgotten. What is made this way has each key once, and making it once more
changes nothing. Keys that are no texts only matter for the latter. Pairs with texts for keys may
be put in in any order, unless one key stands with two values.
-/
namespace ApiScaffold

namespace Value

variable {key : Value} {name : Text}

theorem sameKey_text : key.sameKey (.text name) = true ↔ key = .text name := by
  cases key <;> simp [sameKey, sameScalar, integral?]

theorem text_sameKey : (Value.text name).sameKey key = true ↔ key = .text name := by
  cases key with
  | text t =>
    simp only [sameKey, sameScalar, beq_iff_eq, text.injEq]
    exact eq_comm
  | _ => simp [sameKey, sameScalar, integral?]

end Value

namespace Mapping

variable {m into pairs : Mapping} {key value : Value}

/-- After an insertion its value is found under its key, and other texts are found as before. -/
theorem getText?_insert (name : Text) (key value : Value) (m : Mapping) :
    getText? name (insert key value m) =
      if key.sameKey (.text name) then some value else getText? name m := by
  unfold getText?
  induction m with
  | nil => rfl
  | cons p rest ih =>
    obtain ⟨k, v⟩ := p
    rw [insert]
    by_cases hsame : k.sameKey key = true
    · rw [if_pos hsame, get?, get?]
      by_cases hk : k.sameKey (.text name) = true
      · have hkey : key.sameKey (.text name) = true := by
          rw [Value.sameKey_text.mp hk, Value.text_sameKey] at hsame
          exact Value.sameKey_text.mpr hsame
        rw [if_pos hk, if_pos hkey]
      · have hkey : ¬key.sameKey (.text name) = true := by
          intro hkey
          rw [Value.sameKey_text.mp hkey] at hsame
          exact hk hsame
        rw [if_neg hk, if_neg hkey, if_neg hk]
    · rw [if_neg hsame, get?, get?, ih]
      by_cases hk : k.sameKey (.text name) = true
      · have hkey : ¬key.sameKey (.text name) = true := by
          intro hkey
          rw [Value.sameKey_text.mp hkey] at hsame
          exact hsame hk
        rw [if_pos hk, if_neg hkey, if_pos hk]
      · rw [if_neg hk, if_neg hk]

theorem insertAll_concat (pairs : Mapping) (p : Value × Value) (into : Mapping) :
    insertAll (pairs ++ [p]) into = insert p.1 p.2 (insertAll pairs into) := by
  unfold insertAll
  rw [List.foldl_append, List.foldl_cons, List.foldl_nil]

/-- What is put in is found first, and what it leaves open is found as before. -/
theorem getText?_insertAll (name : Text) (pairs into : Mapping) :
    getText? name (insertAll pairs into) =
      (getText? name (ofPairs pairs)).or (getText? name into) := by
  unfold ofPairs
  induction pairs using List.reverseRecOn with
  | nil => rfl
  | append_singleton pairs p ih =>
    rw [insertAll_concat, insertAll_concat, getText?_insert, getText?_insert, ih]
    by_cases hkey : p.1.sameKey (.text name) = true
    · rw [if_pos hkey, if_pos hkey, Option.some_or]
    · rw [if_neg hkey, if_neg hkey]

/-- No key is the same as an earlier one. -/
def Tidy (m : Mapping) : Prop := m.Pairwise fun p q => p.1.sameKey q.1 = false

theorem key_of_mem_insert {q : Value × Value} (h : q ∈ insert key value m) :
    q.1 = key ∨ ∃ p ∈ m, p.1 = q.1 := by
  induction m with
  | nil =>
    rw [insert, List.mem_singleton] at h
    rw [h]
    exact Or.inl rfl
  | cons p rest ih =>
    obtain ⟨k, v⟩ := p
    rw [insert] at h
    split_ifs at h
    · rcases List.mem_cons.mp h with rfl | h
      · exact Or.inr ⟨(k, v), List.mem_cons_self, rfl⟩
      · exact Or.inr ⟨q, List.mem_cons_of_mem _ h, rfl⟩
    · rcases List.mem_cons.mp h with rfl | h
      · exact Or.inr ⟨(k, v), List.mem_cons_self, rfl⟩
      · apply (ih h).imp_right
        intro hrest
        obtain ⟨p, hp, hq⟩ := hrest
        exact ⟨p, List.mem_cons_of_mem _ hp, hq⟩

theorem Tidy.insert (h : Tidy m) (key value : Value) : Tidy (insert key value m) := by
  unfold Tidy at h ⊢
  induction m with
  | nil => exact List.pairwise_singleton _ _
  | cons p rest ih =>
    obtain ⟨k, v⟩ := p
    obtain ⟨hfirst, hrest⟩ := List.pairwise_cons.mp h
    rw [Mapping.insert]
    split_ifs with hsame
    · exact List.pairwise_cons.mpr ⟨hfirst, hrest⟩
    · apply List.pairwise_cons.mpr
      refine ⟨fun q hq => ?_, ih hrest⟩
      rcases key_of_mem_insert hq with hkey | ⟨p, hp, hkey⟩
      · rw [hkey]
        exact Bool.eq_false_iff.mpr hsame
      · rw [← hkey]
        exact hfirst p hp

theorem Tidy.insertAll (h : Tidy into) (pairs : Mapping) : Tidy (insertAll pairs into) := by
  induction pairs using List.reverseRecOn with
  | nil => exact h
  | append_singleton pairs p ih =>
    rw [insertAll_concat]
    exact ih.insert p.1 p.2

theorem tidy_ofPairs (pairs : Mapping) : Tidy (ofPairs pairs) :=
  Tidy.insertAll List.Pairwise.nil pairs

theorem insert_of_new (h : ∀ p ∈ m, p.1.sameKey key = false) :
    insert key value m = m ++ [(key, value)] := by
  induction m with
  | nil => rfl
  | cons p rest ih =>
    obtain ⟨k, v⟩ := p
    have hk : k.sameKey key = false := h _ List.mem_cons_self
    have hrest : insert key value rest = rest ++ [(key, value)] :=
      ih fun q hq => h q (List.mem_cons_of_mem _ hq)
    rw [insert, if_neg (by simp [hk]), hrest, List.cons_append]

/-- Pairs whose keys differ make the mapping that they are. -/
theorem ofPairs_of_tidy (h : Tidy m) : ofPairs m = m := by
  unfold ofPairs
  induction m using List.reverseRecOn with
  | nil => rfl
  | append_singleton pairs p ih =>
    obtain ⟨hpairs, -, hlast⟩ := List.pairwise_append.mp h
    rw [insertAll_concat, ih hpairs]
    exact insert_of_new fun q hq => hlast q hq p (List.mem_singleton_self p)

/-! ## Mappings with texts for keys -/

/-- Texts for keys, each of them once. -/
structure Named (m : Mapping) : Prop where
  texts : ∀ p ∈ m, ∃ name, p.1 = .text name
  nodup : (m.map Prod.fst).Nodup

/-- No key stands with two values. -/
def Consistent (m : Mapping) : Prop := ∀ p ∈ m, ∀ q ∈ m, p.1 = q.1 → p.2 = q.2

section
variable {m' : Mapping} {name : Text}

theorem Named.perm (h : m.Named) (hperm : m'.Perm m) : m'.Named where
  texts p hp := h.texts p (hperm.mem_iff.mp hp)
  nodup := (hperm.map Prod.fst).nodup_iff.mpr h.nodup

theorem Named.consistent (h : m.Named) : m.Consistent := by
  intro p hp q hq hkey
  rw [List.inj_on_of_nodup_map h.nodup hp hq hkey]

theorem Tidy.named (h : m.Tidy) (htexts : ∀ p ∈ m, ∃ name, p.1 = .text name) : m.Named where
  texts := htexts
  nodup := by
    refine List.pairwise_map.mpr (h.imp_of_mem fun {p q} hp _ hsame hkey => ?_)
    obtain ⟨name, hname⟩ := htexts p hp
    rw [← hkey, hname, Value.sameKey_text.mpr rfl] at hsame
    cases hsame

theorem exists_key_of_mem_ofPairs {p : Value × Value} (hp : p ∈ ofPairs pairs) :
    ∃ q ∈ pairs, q.1 = p.1 := by
  unfold ofPairs at hp
  induction pairs using List.reverseRecOn generalizing p with
  | nil => cases hp
  | append_singleton pairs last ih =>
    rw [insertAll_concat] at hp
    rcases key_of_mem_insert hp with hkey | ⟨q, hq, hkey⟩
    · exact ⟨last, List.mem_append_right _ (List.mem_singleton_self last), hkey.symm⟩
    · obtain ⟨r, hr, hsame⟩ := ih hq
      exact ⟨r, List.mem_append_left _ hr, hsame.trans hkey⟩

theorem named_ofPairs (htexts : ∀ p ∈ pairs, ∃ name, p.1 = .text name) :
    (ofPairs pairs).Named := by
  refine (tidy_ofPairs pairs).named fun p hp => ?_
  obtain ⟨q, hq, hkey⟩ := exists_key_of_mem_ofPairs hp
  rw [← hkey]
  exact htexts q hq

/-- In a mapping with each key once, the value under a text is the one it stands with. -/
theorem Named.getText?_eq_some_iff (h : m.Named) :
    getText? name m = some value ↔ (.text name, value) ∈ m := by
  unfold getText?
  obtain ⟨-, hkeys⟩ := h
  induction m with
  | nil => simp [get?]
  | cons p rest ih =>
    obtain ⟨k, v⟩ := p
    rw [List.map_cons, List.nodup_cons] at hkeys
    rw [get?, List.mem_cons]
    by_cases hk : k.sameKey (.text name) = true
    · obtain rfl := Value.sameKey_text.mp hk
      have hrest : (Value.text name, value) ∉ rest := fun hmem =>
        hkeys.1 (List.mem_map.mpr ⟨_, hmem, rfl⟩)
      simp [hk, hrest, eq_comm]
    · have hne : (Value.text name, value) ≠ (k, v) := by
        rintro heq
        cases heq
        exact hk (Value.sameKey_text.mpr rfl)
      rw [if_neg hk, ih hkeys.2]
      simp [hne]

/-- Mappings in which the same is found under every text are the same up to their order. -/
theorem Named.perm_of_getText? (h : m.Named) (h' : m'.Named)
    (hsame : ∀ name, getText? name m = getText? name m') : m.Perm m' := by
  refine (List.perm_ext_iff_of_nodup h.nodup.of_map h'.nodup.of_map).mpr fun p => ?_
  obtain ⟨key, value⟩ := p
  constructor
  · intro hp
    obtain ⟨name, rfl⟩ := h.texts _ hp
    rwa [← h'.getText?_eq_some_iff, ← hsame, h.getText?_eq_some_iff]
  · intro hp
    obtain ⟨name, rfl⟩ := h'.texts _ hp
    rwa [← h.getText?_eq_some_iff, hsame, h'.getText?_eq_some_iff]

/-- When no key is put in with two values, it is found with the value it was put in with. -/
theorem Consistent.getText?_ofPairs (h : pairs.Consistent) :
    getText? name (ofPairs pairs) = some value ↔ (.text name, value) ∈ pairs := by
  unfold ofPairs
  induction pairs using List.reverseRecOn with
  | nil => simp [insertAll, getText?, get?]
  | append_singleton pairs last ih =>
    obtain ⟨key, v⟩ := last
    have hpairs : Consistent pairs := fun p hp q hq =>
      h p (List.mem_append_left _ hp) q (List.mem_append_left _ hq)
    rw [insertAll_concat, getText?_insert, List.mem_append, List.mem_singleton]
    by_cases hkey : key.sameKey (.text name) = true
    · obtain rfl := Value.sameKey_text.mp hkey
      have hvalue : (Value.text name, value) ∈ pairs → value = v := fun hmem =>
        h _ (List.mem_append_left _ hmem) _ (List.mem_append_right _ (List.mem_singleton_self _))
          rfl
      rw [if_pos hkey]
      simp only [Option.some.injEq, Prod.mk.injEq, true_and]
      exact ⟨fun heq => Or.inr heq.symm, fun hor => (hor.elim hvalue id).symm⟩
    · rw [if_neg hkey, ih hpairs]
      have hne : (Value.text name, value) ≠ (key, v) := by
        rintro heq
        cases heq
        exact hkey (Value.sameKey_text.mpr rfl)
      simp [hne]

/-- Without two values for one key, the order in which pairs are put in does not matter. -/
theorem Consistent.ofPairs_perm {pairs' : Mapping} (h : pairs.Consistent)
    (htexts : ∀ p ∈ pairs, ∃ name, p.1 = .text name) (hperm : pairs'.Perm pairs) :
    (ofPairs pairs').Perm (ofPairs pairs) := by
  have h' : Consistent pairs' := fun p hp q hq =>
    h p (hperm.mem_iff.mp hp) q (hperm.mem_iff.mp hq)
  have htexts' : ∀ p ∈ pairs', ∃ name, p.1 = .text name := fun p hp =>
    htexts p (hperm.mem_iff.mp hp)
  refine (named_ofPairs htexts').perm_of_getText? (named_ofPairs htexts) fun name => ?_
  refine Option.ext fun value => ?_
  rw [h'.getText?_ofPairs, h.getText?_ofPairs, hperm.mem_iff]

end

end Mapping

end ApiScaffold
