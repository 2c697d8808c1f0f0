import ApiScaffold.Proofs.AttributeReading
import ApiScaffold.Proofs.ImportedClasses

/-!
# Filters as they are written

The literal of an allow-list of filters is read back by a reader of its own, which knows the two
calls of the class of filters and the quoted names of columns. What is read is one filter for every
column that may be filtered by, in the order of the groups and of the columns, whatever characters
the names have. The main theorem also follows the claim on the class through any registry: no other
claim is touched.
-/
namespace ApiScaffold

open Text

/-! ## Readers of calls -/

namespace PhpLiteral

/-- What stands behind a word at the start of a text. -/
def behind? (word t : Text) : Option Text :=
  if word.isPrefixOf t then some (t.drop word.length) else none

theorem behind?_append (word rest : Text) : behind? word (word ++ rest) = some rest := by
  unfold behind?
  rw [if_pos (List.isPrefixOf_iff_prefix.mpr (List.prefix_append word rest)), List.drop_left]

theorem behind?_length_le {word t rest : Text} (h : behind? word t = some rest) :
    rest.length + word.length ≤ t.length := by
  unfold behind? at h
  split_ifs at h with hword
  cases h
  have hlength := (List.isPrefixOf_iff_prefix.mp hword).length_le
  rw [List.length_drop]
  omega

namespace Reader

variable {α : Type} {r : Reader α} {a : α}

/-- A thing between two words. -/
def between (front back : Text) (r : Reader α) : Reader α where
  read t :=
    (behind? front t).bind fun inner =>
      (r.read inner).bind fun found => (behind? back found.2).map (found.1, ·)
  shorter := by
    intro t a rest h
    obtain ⟨inner, hfront, h⟩ := Option.bind_eq_some_iff.mp h
    obtain ⟨found, hread, h⟩ := Option.bind_eq_some_iff.mp h
    obtain ⟨rest', hback, heq⟩ := Option.map_eq_some_iff.mp h
    cases heq
    have hinner := behind?_length_le hfront
    have hfound := r.shorter hread
    have hrest := behind?_length_le hback
    omega

theorem between_read (front back : Text) {inner rest : Text}
    (h : r.read (inner ++ (back ++ rest)) = some (a, back ++ rest)) :
    (r.between front back).read (front ++ (inner ++ (back ++ rest))) = some (a, rest) := by
  simp [between, behind?_append, h]

/-- A word that stands for a thing. -/
def word (w : Text) (hw : w ≠ []) (a : α) : Reader α where
  read t := (behind? w t).map (a, ·)
  shorter := by
    intro t b rest h
    obtain ⟨rest', hbehind, heq⟩ := Option.map_eq_some_iff.mp h
    cases heq
    have hlength := behind?_length_le hbehind
    have hpos := List.length_pos_iff.mpr hw
    omega

theorem word_read (w : Text) (hw : w ≠ []) (a : α) (rest : Text) :
    (word w hw a).read (w ++ rest) = some (a, rest) := by
  simp [word, behind?_append]

end Reader

end PhpLiteral

/-! ## Families of types -/

namespace TypeFamily

theorem find?_of_mem_members : ∀ f ∈ all, ∀ t ∈ f.members,
    all.find? (fun g => g.members.contains t) = some f := by
  unfold all members
  repeat rw [String.toList_ofList]
  decide +kernel

/-- No type is in two families, so the order in which they are looked up does not matter. -/
theorem of?_eq_some_iff {dataType : Text} {family : TypeFamily} :
    of? dataType = some family ↔ lower dataType ∈ family.members := by
  constructor
  · intro h
    simpa using List.find?_some h
  · have hall : family ∈ all := by cases family <;> decide
    exact find?_of_mem_members family hall (lower dataType)

end TypeFamily

namespace AllowList

/-! ## Columns and their filters -/

/-- A column that is compared exactly: a key or an enum, unless the framework keeps it up. -/
def FilteredExactly (c : Column) : Prop :=
  c.name ∉ (["id", "created_at", "updated_at", "deleted_at"] : List Text) ∧
    (("_id" : Text) <:+ c.name ∨ lower c.dataType = ("enum" : Text))

/-- A column that is compared in part: a text that is neither a key nor kept up by the
framework. -/
def FilteredInPart (c : Column) : Prop :=
  c.name ∉ (["id", "created_at", "updated_at", "deleted_at"] : List Text) ∧
    ¬("_id" : Text) <:+ c.name ∧
      lower c.dataType ∈ (["string", "text", "longtext"] : List Text)

instance : DecidablePred FilteredExactly := fun _ => inferInstanceAs (Decidable (_ ∧ _))

instance : DecidablePred FilteredInPart := fun _ => inferInstanceAs (Decidable (_ ∧ _))

/-- The filters that the columns of an entity ask for. -/
def columnFilters : Option Entity → List Filter
  | none => []
  | some e =>
    (e.columns.filter (FilteredExactly ·)).map (.exact ·.name) ++
      (if e.softDeletes then [.trashed] else []) ++
      (e.columns.filter (FilteredInPart ·)).map (.partly ·.name)

theorem isManaged_iff {c : Column} : c.isManaged = true ↔
    c.name ∈ (["id", "created_at", "updated_at", "deleted_at"] : List Text) :=
  List.contains_iff_mem

theorem isForeignKey_iff {c : Column} : c.isForeignKey = true ↔ ("_id" : Text) <:+ c.name :=
  List.isSuffixOf_iff_suffix

theorem isEnum_iff {c : Column} : c.isEnum = true ↔ lower c.dataType = ("enum" : Text) := by
  unfold Column.isEnum isEnumType
  rw [beq_iff_eq, TypeFamily.of?_eq_some_iff]
  exact List.mem_singleton

theorem isExact_iff {c : Column} : isExact c = true ↔ FilteredExactly c := by
  unfold isExact FilteredExactly
  rw [Bool.and_eq_true, Bool.or_eq_true, Bool.not_eq_true', ← Bool.not_eq_true, isManaged_iff,
    isForeignKey_iff, isEnum_iff]

/-- A type of text is no enum, so nothing is said of enums here. -/
theorem isPartial_iff {c : Column} : isPartial c = true ↔ FilteredInPart c := by
  have htext : ∀ t ∈ (["string", "text", "longtext"] : List Text), t ≠ ("enum" : Text) := by
    decide
  unfold isPartial FilteredInPart
  rw [Bool.and_eq_true, Bool.and_eq_true, Bool.not_eq_true', Bool.not_eq_true',
    ← Bool.not_eq_true, ← Bool.not_eq_true, Bool.or_eq_true, isManaged_iff, isForeignKey_iff,
    isEnum_iff, beq_iff_eq, TypeFamily.of?_eq_some_iff, and_assoc]
  refine and_congr_right fun _ => ?_
  constructor
  · rintro ⟨hno, hmem⟩
    exact ⟨fun hkey => hno (Or.inl hkey), hmem⟩
  · rintro ⟨hkey, hmem⟩
    exact ⟨fun h => h.elim hkey (htext _ hmem), hmem⟩

theorem filters_eq (e : Option Entity) : filters e = columnFilters e := by
  have hexact : isExact = fun c => decide (FilteredExactly c) := by
    funext c
    rw [Bool.eq_iff_iff, isExact_iff, decide_eq_true_iff]
  have hpartial : isPartial = fun c => decide (FilteredInPart c) := by
    funext c
    rw [Bool.eq_iff_iff, isPartial_iff, decide_eq_true_iff]
  cases e with
  | none => rfl
  | some e => rw [filters, columnFilters, hexact, hpartial]

/-! ## Literals of filters -/

open PhpLiteral

/-- A call of the class of filters, or the name of a column alone. -/
def filterReader : Reader Filter :=
  ((Reader.string.between "AllowedFilter::exact(" ")").map .exact).orElse
    ((Reader.word "AllowedFilter::trashed()" (by decide) .trashed).orElse
      (Reader.string.map .partly))

theorem Filter.text_exact (column : Text) :
    (Filter.exact column).text = "AllowedFilter::exact(" ++ (quote column ++ ")") :=
  List.append_assoc _ _ _

theorem Filter.text_trashed : Filter.trashed.text = "AllowedFilter::trashed()" := rfl

theorem Filter.text_partly (column : Text) : (Filter.partly column).text = quote column := rfl

theorem filterReader_text (f : Filter) (rest : Text) :
    filterReader.read (f.text ++ rest) = some (f, rest) := by
  unfold filterReader
  cases f with
  | exact column =>
    have hstring := Reader.string_quote column (")" ++ rest)
    have hcall := Reader.map_read Filter.exact
      (Reader.between_read "AllowedFilter::exact(" ")" hstring)
    rw [Filter.text_exact, List.append_assoc, List.append_assoc]
    exact Reader.orElse_read_left hcall
  | trashed =>
    have hexact : ((Reader.string.between "AllowedFilter::exact(" ")").map Filter.exact).read
        ("AllowedFilter::trashed()" ++ rest) = none := rfl
    rw [Filter.text_trashed, Reader.orElse_read_right hexact]
    exact Reader.orElse_read_left (Reader.word_read _ _ _ rest)
  | partly column =>
    have hexact : ((Reader.string.between "AllowedFilter::exact(" ")").map Filter.exact).read
        (quote column ++ rest) = none := rfl
    have htrashed : (Reader.word "AllowedFilter::trashed()" (by decide) Filter.trashed).read
        (quote column ++ rest) = none := rfl
    rw [Filter.text_partly, Reader.orElse_read_right hexact,
      Reader.orElse_read_right htrashed]
    exact Reader.map_read Filter.partly (Reader.string_quote column rest)

theorem filter_spells (f : Filter) : Reader.Spells ']' filterReader f.text f where
  start := by
    cases f with
    | exact column => exact ⟨'A', _, rfl, rfl⟩
    | trashed => exact ⟨'A', _, rfl, rfl⟩
    | partly column => exact ⟨'\'', _, rfl, rfl⟩
  reads mark rest _ := filterReader_text f (mark :: rest)

theorem filtersText_read (e : Option Entity) (rest : Text) :
    filterReader.array (filtersText e ++ rest) = some (filters e, rest) := by
  have hspells : List.Forall₂ (Reader.Spells ']' filterReader) ((filters e).map Filter.text)
      (filters e) := by
    simp [List.forall₂_same, filter_spells]
  exact Reader.array_read (fun _ => rfl) hspells rest

/-! ## The class of filters -/

/-- The filters that need the class are those whose text begins with it. -/
theorem usesClass_iff {f : Filter} :
    f.usesClass = true ↔ ("AllowedFilter::" : Text) <+: f.text := by
  cases f with
  | exact column =>
    have hstart : ("AllowedFilter::" : Text) <+: "AllowedFilter::exact(" := by decide
    rw [Filter.text_exact]
    exact iff_of_true rfl (hstart.trans (List.prefix_append _ _))
  | trashed => decide
  | partly column =>
    have hquote : (quote column).head? = some '\'' := rfl
    refine iff_of_false Bool.false_ne_true fun h => ?_
    obtain ⟨behind, hbehind⟩ := h
    rw [← Filter.text_partly, ← hbehind] at hquote
    cases hquote

theorem usesClass_iff_form {f : Filter} :
    f.usesClass = true ↔ f = .trashed ∨ ∃ column, f = .exact column := by
  cases f <;> simp [Filter.usesClass]

/-- Every allow-list of filters has a literal that is read back as one exact filter for each key
and each enum that the framework does not keep up itself, in the order of the columns, then the
filter for deleted records if records are only marked as deleted, and then one filter in part for
each other column of a text type, in their order. After any calls on a registry, the class of
filters is kept exactly when a filter of the first two sorts exists, that is one whose text begins
with the class, or when another owner claimed it before. All other claims stay as they were. -/
theorem filtersText_and_claim (calls : List Imports.Call) (e : Option Entity) :
    filtersText e = array ((columnFilters e).map Filter.text) ∧
      (∀ rest, filterReader.array (filtersText e ++ rest) = some (columnFilters e, rest)) ∧
      (∀ f : Filter, ("AllowedFilter::" : Text) <+: f.text ↔
        f = .trashed ∨ ∃ column, f = .exact column) ∧
      ((claimFilters e (Imports.after calls)).contains filterClass = true ↔
        (∃ f ∈ columnFilters e, f = .trashed ∨ ∃ column, f = .exact column) ∨
          ∃ owner, owner ≠ filterOwner ∧ (filterClass, owner) ∈ (Imports.after calls).pairs) ∧
      ∀ p : Text × Text, p ≠ (filterClass, filterOwner) →
        (p ∈ (claimFilters e (Imports.after calls)).pairs ↔
          p ∈ (Imports.after calls).pairs) := by
  have hkept : (Imports.after calls).WellKept :=
    (Imports.foldl_perform Imports.wellKept_empty rfl calls).1
  have hname : Imports.normalName filterClass = filterClass := by decide
  have huses : (filters e).any Filter.usesClass = true ↔
      ∃ f ∈ columnFilters e, f = .trashed ∨ ∃ column, f = .exact column := by
    rw [List.any_eq_true, filters_eq]
    simp only [usesClass_iff_form]
  have hpairs := pairs_claimFilters e (Imports.after calls)
  refine ⟨?_, fun rest => ?_, fun f => ?_, ?_, fun p hp => ?_⟩
  · rw [filtersText, filters_eq]
  · rw [filtersText_read, filters_eq]
  · rw [← usesClass_iff, usesClass_iff_form]
  · rw [(claimFilters_wellKept e hkept).contains_iff, hname, ← huses, hpairs]
    split_ifs with hany
    · simp [hany]
    · simp [hany, and_comm]
  · rw [hpairs]
    split_ifs
    · exact Set.mem_insert_iff.trans (or_iff_right hp)
    · exact Set.mem_sdiff_singleton.trans (and_iff_left hp)

end AllowList

end ApiScaffold
