import ApiScaffold.Proofs.AcceptedSettings
import ApiScaffold.Proofs.DraftOrder
import ApiScaffold.Proofs.RenderingFailures

/-!
# Declared relationships

A model may name a kind of relationship under several keys, since the case of a key does not count,
and it may have several relationships sections for the same reason. Only the last section counts,
and in it only the last value of each kind: what was declared before is not joined to it, as the
names of one kind are when an entity is made, but forgotten. So no declared name is lost exactly
when all names that are declared are declared there.
-/
namespace ApiScaffold

open Text

/-! ## Names that are written -/

namespace Relationships

variable {names : List Text}

theorem nameOf_eq_ok_iff {v : Value} {t : Text} :
    nameOf v = .ok t ↔ v.hasLong = false ∧ v.display = t :=
  Except.mapError_eq_ok_iff.trans Value.written_eq_ok_iff

theorem mapM_nameOf_eq_ok_iff {items : List Value} : items.mapM nameOf = .ok names ↔
    (∀ item ∈ items, item.hasLong = false) ∧ names = items.map Value.display := by
  simp only [Except.mapM_eq_ok_iff, nameOf_eq_ok_iff]
  induction items generalizing names with
  | nil => simp
  | cons item items ih =>
    simp only [List.forall₂_cons_left_iff, ih, List.forall_mem_cons, List.map_cons]
    constructor
    · rintro ⟨_, _, ⟨hitem, rfl⟩, ⟨hitems, rfl⟩, rfl⟩
      exact ⟨⟨hitem, hitems⟩, rfl⟩
    · rintro ⟨⟨hitem, hitems⟩, rfl⟩
      exact ⟨_, _, ⟨hitem, rfl⟩, ⟨hitems, rfl⟩, rfl⟩

theorem names_parts_eq_ok_iff {items : List Value} : (Targets.parts items).names = .ok names ↔
    (∀ item ∈ items, item.hasLong = false) ∧
      names = ((items.map Value.display).map trim).filter (· ≠ []) := by
  unfold Targets.names
  rw [Except.map_eq_ok_iff]
  simp only [mapM_nameOf_eq_ok_iff]
  constructor
  · rintro ⟨_, ⟨hitems, rfl⟩, rfl⟩
    exact ⟨hitems, rfl⟩
  · rintro ⟨hitems, rfl⟩
    exact ⟨_, ⟨hitems, rfl⟩, rfl⟩

end Relationships

namespace Draft

/-! ## What a model says -/

/-- The pairs of a value that may be left out. -/
def pairsIn : Value → Mapping
  | .mapping pairs => pairs
  | _ => []

def opensRelationships (key : Value) : Bool :=
  key.written.toOption.any fun t => lower t = ("relationships" : Text)

/-- The relationships sections of a model, in order. -/
def sections (entries : Mapping) : List Mapping :=
  entries.filterMap fun p => if opensRelationships p.1 then some (pairsIn p.2) else none

/-- The values that a relationships section has for a kind, in order. A null is no value. -/
def valuesOf (kind : RelationshipKind) (pairs : Mapping) : List Value :=
  pairs.filterMap fun p =>
    if kindOf? p.1 = some kind then
      match p.2 with
      | .null => none
      | v => some v
    else none

/-- A value gives a name: between the commas of a text or as an item of a list, with blanks around
it or not. -/
def Names (v : Value) (name : Text) : Prop :=
  name ≠ [] ∧ ((∃ whole, v = .text whole ∧ ∃ part ∈ splitOn ',' whole, trim part = name) ∨
    ∃ items, v = .list items ∧ ∃ item ∈ items, trim item.display = name)

/-- Some section of the model gives the name under some key of the kind. -/
def Declared (definition : Value) (kind : RelationshipKind) (name : Text) : Prop :=
  ∃ pairs ∈ sections (pairsIn definition), ∃ v ∈ valuesOf kind pairs, Names v name

/-- The last section of the model gives the name under its last key of the kind. -/
def DeclaredLast (definition : Value) (kind : RelationshipKind) (name : Text) : Prop :=
  ∃ pairs ∈ (sections (pairsIn definition)).getLast?, ∃ v ∈ (valuesOf kind pairs).getLast?,
    Names v name

/-- The model has one relationships section at most, and that has each kind once at most. -/
def DeclaredOnce (definition : Value) : Prop :=
  (sections (pairsIn definition)).length ≤ 1 ∧
    ∀ pairs ∈ sections (pairsIn definition), ∀ kind, (valuesOf kind pairs).length ≤ 1

theorem DeclaredLast.declared {definition : Value} {kind : RelationshipKind} {name : Text}
    (h : DeclaredLast definition kind name) : Declared definition kind name := by
  obtain ⟨pairs, hpairs, v, hv, hname⟩ := h
  exact ⟨pairs, List.mem_of_getLast? hpairs, v, List.mem_of_getLast? hv, hname⟩

theorem mem_getLast?_of_mem {α : Type} {l : List α} {a : α} (hlength : l.length ≤ 1) (h : a ∈ l) :
    a ∈ l.getLast? := by
  cases l with
  | nil => cases h
  | cons b rest =>
    obtain rfl : rest = [] := List.length_eq_zero_iff.mp (by simpa using hlength)
    obtain rfl := List.mem_singleton.mp h
    rfl

theorem DeclaredOnce.declaredLast {definition : Value} (h : DeclaredOnce definition)
    {kind : RelationshipKind} {name : Text} (hdeclared : Declared definition kind name) :
    DeclaredLast definition kind name := by
  obtain ⟨pairs, hpairs, v, hv, hname⟩ := hdeclared
  exact ⟨pairs, mem_getLast?_of_mem h.1 hpairs, v, mem_getLast?_of_mem (h.2 pairs hpairs kind) hv,
    hname⟩

/-! ## What is made of it -/

/-- The names that targets have, if all of them can be written. -/
theorem mem_names_iff {v : Value} {targets : Relationships.Targets} {names : List Text}
    {name : Text} (hform : targets? v = some targets) (h : targets.names = .ok names) :
    name ∈ names ↔ Names v name := by
  cases v with
  | text whole =>
    cases hform
    cases h
    simp [Names, and_comm]
  | list items =>
    cases hform
    obtain ⟨-, rfl⟩ := Relationships.names_parts_eq_ok_iff.mp h
    simp [Names, and_comm]
  | _ => cases hform

/-- A text or a list has targets, and nothing else has a name. -/
theorem exists_targets?_of_names {v : Value} {name : Text} (h : Names v name) :
    ∃ targets, targets? v = some targets := by
  obtain ⟨-, ⟨whole, rfl, -⟩ | ⟨items, rfl, -⟩⟩ := h
  · exact ⟨_, rfl⟩
  · exact ⟨_, rfl⟩

variable {declared ds : Declarations} {rs : Relationships} {kind : RelationshipKind}
  {targets : Relationships.Targets} {names : List Text} {entity : Text} {pairs : Mapping}

theorem keys_redeclare (kind : RelationshipKind) (targets : Relationships.Targets)
    (declared : Declarations) : (redeclare kind targets declared).map Prod.fst =
      if kind ∈ declared.map Prod.fst then declared.map Prod.fst
      else declared.map Prod.fst ++ [kind] := by
  induction declared with
  | nil => rfl
  | cons d rest ih =>
    rw [redeclare]
    by_cases hd : d.1 = kind
    · simp [hd]
    · rw [if_neg hd, List.map_cons, ih]
      by_cases hrest : kind ∈ rest.map Prod.fst <;> simp [hrest, Ne.symm hd]

theorem nodup_redeclare (h : (declared.map Prod.fst).Nodup) (kind : RelationshipKind)
    (targets : Relationships.Targets) :
    ((redeclare kind targets declared).map Prod.fst).Nodup := by
  rw [keys_redeclare]
  split_ifs with hkind
  · exact h
  · exact List.nodup_append_comm.mp (List.nodup_cons.mpr ⟨hkind, h⟩)

/-- Declaring a kind once more forgets the names that it had. -/
theorem mem_redeclare (h : (declared.map Prod.fst).Nodup)
    {d : RelationshipKind × Relationships.Targets} :
    d ∈ redeclare kind targets declared ↔ d = (kind, targets) ∨ d.1 ≠ kind ∧ d ∈ declared := by
  induction declared with
  | nil => simp [redeclare]
  | cons first rest ih =>
    obtain ⟨hfirst, hrest⟩ := List.nodup_cons.mp h
    rw [redeclare]
    by_cases hkind : first.1 = kind
    · have hother : ∀ d ∈ rest, d.1 ≠ kind := by
        intro d hd hsame
        rw [hkind, ← hsame] at hfirst
        exact hfirst (List.mem_map_of_mem hd)
      rw [if_pos hkind, List.mem_cons, List.mem_cons]
      apply or_congr_right
      constructor
      · intro hd
        exact ⟨hother d hd, Or.inr hd⟩
      · rintro ⟨hne, rfl | hd⟩
        · exact absurd hkind hne
        · exact hd
    · rw [if_neg hkind, List.mem_cons, ih hrest, List.mem_cons]
      constructor
      · rintro (rfl | rfl | ⟨hne, hd⟩)
        · exact Or.inr ⟨hkind, Or.inl rfl⟩
        · exact Or.inl rfl
        · exact Or.inr ⟨hne, Or.inr hd⟩
      · rintro (rfl | ⟨hne, rfl | hd⟩)
        · exact Or.inr (Or.inl rfl)
        · exact Or.inl rfl
        · exact Or.inr (Or.inr ⟨hne, hd⟩)

theorem valuesOf_cons_null {key : Value} (kind : RelationshipKind) (rest : Mapping) :
    valuesOf kind ((key, .null) :: rest) = valuesOf kind rest := by
  unfold valuesOf
  apply List.filterMap_cons_none
  simp

theorem valuesOf_cons {p : Value × Value} {key : RelationshipKind} (hkey : kindOf? p.1 = some key)
    (hvalue : p.2 ≠ .null) (kind : RelationshipKind) (rest : Mapping) :
    valuesOf kind (p :: rest) =
      if key = kind then p.2 :: valuesOf kind rest else valuesOf kind rest := by
  unfold valuesOf
  by_cases hsame : key = kind
  · rw [if_pos hsame]
    apply List.filterMap_cons_some
    rw [hkey, hsame, if_pos rfl]
    split
    · rename_i hnull
      exact absurd hnull hvalue
    · rfl
  · rw [if_neg hsame]
    apply List.filterMap_cons_none
    rw [hkey, if_neg fun h => hsame (Option.some.inj h)]

/-- What a relationships section leaves under a kind: the targets of its last value for it, or
those declared before when it has none. -/
theorem mem_of_relationshipPairs (hdeclared : (declared.map Prod.fst).Nodup)
    (h : relationshipPairs entity pairs declared = .ok ds) :
    (kind, targets) ∈ ds ↔
      match (valuesOf kind pairs).getLast? with
      | some v => targets? v = some targets
      | none => (kind, targets) ∈ declared := by
  induction pairs generalizing declared with
  | nil =>
    cases h
    rfl
  | cons p rest ih =>
    obtain ⟨found, ⟨key, hkey, hfound⟩, hrest⟩ := relationshipPairs_cons_ok.mp h
    obtain ⟨hnull, rfl⟩ | ⟨own, hown, rfl⟩ := hfound
    · obtain ⟨shown, v⟩ := p
      obtain rfl : v = .null := hnull
      rw [valuesOf_cons_null]
      exact ih hdeclared hrest
    · have hvalue : p.2 ≠ .null := by
        intro hnull
        rw [hnull] at hown
        cases hown
      rw [valuesOf_cons hkey hvalue, ih (nodup_redeclare hdeclared key own) hrest,
        mem_redeclare hdeclared, Prod.mk.injEq]
      by_cases hsame : key = kind
      · subst hsame
        rw [if_pos rfl, List.getLast?_cons]
        cases (valuesOf key rest).getLast? with
        | some v => rfl
        | none => simp [hown, eq_comm]
      · have hother : kind ≠ key := Ne.symm hsame
        rw [if_neg hsame]
        cases (valuesOf kind rest).getLast? with
        | some v => rfl
        | none => simp [hother]

theorem mem_pairs {name : Text} :
    (kind, name) ∈ rs.pairs ↔ ∃ names, (kind, names) ∈ rs ∧ name ∈ names := by
  unfold Relationships.pairs
  rw [List.mem_flatMap]
  constructor
  · rintro ⟨r, hr, hname⟩
    obtain ⟨found, hfound, heq⟩ := List.mem_map.mp hname
    obtain ⟨rfl, rfl⟩ := Prod.mk.inj heq
    exact ⟨r.2, hr, hfound⟩
  · rintro ⟨names, hr, hname⟩
    exact ⟨(kind, names), hr, List.mem_map.mpr ⟨name, hname, rfl⟩⟩

theorem mem_group : (kind, names) ∈ rs.group ↔
    rs.filter (·.1 = kind) ≠ [] ∧ (rs.filter (·.1 = kind)).flatMap (·.2) = names := by
  have hall : ∀ k : RelationshipKind, k ∈ RelationshipKind.all := by
    intro k
    cases k <;> decide
  unfold Relationships.group
  rw [List.mem_filterMap]
  constructor
  · rintro ⟨k, -, hk⟩
    split at hk
    · cases hk
    · rename_i hgroups
      obtain ⟨rfl, rfl⟩ := Prod.mk.inj (Option.some.inj hk)
      exact ⟨hgroups, rfl⟩
  · rintro ⟨hgroups, rfl⟩
    refine ⟨kind, hall kind, ?_⟩
    split
    · rename_i hnone
      exact absurd hnone hgroups
    · rfl

/-- Grouping keeps all names under their kinds. -/
theorem mem_pairs_group {name : Text} :
    (kind, name) ∈ rs.group.pairs ↔ (kind, name) ∈ rs.pairs := by
  rw [mem_pairs, mem_pairs]
  constructor
  · rintro ⟨names, hnames, hname⟩
    obtain ⟨-, rfl⟩ := mem_group.mp hnames
    obtain ⟨r, hr, hname⟩ := List.mem_flatMap.mp hname
    obtain ⟨hfound, hkind⟩ := List.mem_filter.mp hr
    rw [← of_decide_eq_true hkind]
    exact ⟨r.2, hfound, hname⟩
  · rintro ⟨names, hnames, hname⟩
    have hfound : (kind, names) ∈ rs.filter (·.1 = kind) :=
      List.mem_filter.mpr ⟨hnames, decide_eq_true rfl⟩
    exact ⟨_, mem_group.mpr ⟨List.ne_nil_of_mem hfound, rfl⟩,
      List.mem_flatMap.mpr ⟨_, hfound, hname⟩⟩

/-- The relationships that a section declares are the names of its last value for each kind. -/
theorem mem_named {name : Text} (h : relationshipPairs entity pairs [] = .ok ds)
    (hrs : ds.mapM Relationships.named = .ok rs) :
    (kind, name) ∈ rs.pairs ↔ ∃ v ∈ (valuesOf kind pairs).getLast?, Names v name := by
  have hnone : (([] : Declarations).map Prod.fst).Nodup := List.nodup_nil
  have hds := fun targets => @mem_of_relationshipPairs [] ds kind targets _ _ hnone h
  have hmem : ∀ names, (kind, names) ∈ rs ↔
      ∃ targets, (kind, targets) ∈ ds ∧ targets.names = .ok names := by
    intro names
    rw [Except.mem_of_mapM_eq_ok hrs]
    simp only [Relationships.named, Except.map_eq_ok_iff, Prod.exists, Prod.mk.injEq]
    constructor
    · rintro ⟨other, targets, hmem, found, hfound, rfl, rfl⟩
      exact ⟨targets, hmem, hfound⟩
    · rintro ⟨targets, hmem, hfound⟩
      exact ⟨kind, targets, hmem, names, hfound, rfl, rfl⟩
  rw [mem_pairs]
  cases hlast : (valuesOf kind pairs).getLast? with
  | none =>
    simp only [hlast] at hds
    simp [hmem, hds]
  | some v =>
    simp only [hlast] at hds
    simp only [Option.mem_def, Option.some.injEq, exists_eq_left']
    constructor
    · rintro ⟨names, hnames, hname⟩
      obtain ⟨targets, hdeclared, hnames⟩ := (hmem names).mp hnames
      exact (mem_names_iff ((hds targets).mp hdeclared) hnames).mp hname
    · intro hname
      obtain ⟨targets, hform⟩ := exists_targets?_of_names hname
      have hdeclared := (hds targets).mpr hform
      obtain ⟨_, hnamed⟩ := Except.exists_mapM_eq_ok_iff.mp ⟨rs, hrs⟩ _ hdeclared
      obtain ⟨names, hnames, -⟩ := Except.map_eq_ok_iff.mp hnamed
      exact ⟨names, (hmem names).mpr ⟨targets, hdeclared, hnames⟩,
        (mem_names_iff hform hnames).mpr hname⟩

/-! ## Whole models -/

variable {e : Entity} {m m' : ModelParts} {entries : Mapping}

/-- Taking in an entry leaves what was declared alone unless it is a relationships section. -/
theorem addEntry_declared {key : Text} {value : Value} (h : addEntry m key value = .ok m') :
    if lower key = ("relationships" : Text) then
      relationshipPairs m.entity.name (pairsIn value) [] = .ok m'.declared
    else m'.declared = m.declared := by
  unfold addEntry at h
  dsimp only at h
  by_cases hoption : lower key = ("relationships" : Text)
  · rw [if_pos hoption] at h ⊢
    obtain ⟨declared, hdeclared, rfl⟩ := Except.map_eq_ok_iff.mp h
    cases value with
    | null => exact hdeclared
    | mapping pairs => exact hdeclared
    | _ => cases hdeclared
  · rw [if_neg hoption] at h ⊢
    split_ifs at h
    · cases h
      rfl
    · cases h
      rfl
    · cases h
      rfl
    · obtain ⟨c, -, rfl⟩ := Except.map_eq_ok_iff.mp h
      rfl

theorem opensRelationships_iff {key : Value} {shown : Text} (h : key.written = .ok shown) :
    opensRelationships key = true ↔ lower shown = ("relationships" : Text) := by
  unfold opensRelationships
  rw [h]
  exact decide_eq_true_iff

theorem sections_cons_of_opens {key : Value} (h : opensRelationships key = true) (value : Value)
    (rest : Mapping) : sections ((key, value) :: rest) = pairsIn value :: sections rest := by
  unfold sections
  apply List.filterMap_cons_some
  rw [if_pos h]

theorem sections_cons_of_not_opens {key : Value} (h : ¬opensRelationships key = true)
    (value : Value) (rest : Mapping) : sections ((key, value) :: rest) = sections rest := by
  unfold sections
  apply List.filterMap_cons_none
  rw [if_neg h]

/-- The last relationships section declares the related names, and without one they stay. -/
theorem declared_of_addEntries (h : addEntries m entries = .ok m') :
    match (sections entries).getLast? with
    | some pairs => ∃ entity, relationshipPairs entity pairs [] = .ok m'.declared
    | none => m'.declared = m.declared := by
  induction entries generalizing m with
  | nil =>
    cases h
    rfl
  | cons p rest ih =>
    obtain ⟨key, value⟩ := p
    unfold addEntries at h
    cases hwritten : key.written with
    | error m =>
      rw [hwritten] at h
      cases h
    | ok shown =>
      rw [hwritten] at h
      cases hfirst : addEntry m shown value with
      | error f =>
        simp only [Except.mapError, Except.bind, hfirst] at h
        cases h
      | ok next =>
        simp only [Except.mapError, Except.bind, hfirst] at h
        have hnext := addEntry_declared hfirst
        have hrest := ih h
        by_cases hoption : lower shown = ("relationships" : Text)
        · rw [if_pos hoption] at hnext
          rw [sections_cons_of_opens ((opensRelationships_iff hwritten).mpr hoption),
            List.getLast?_cons]
          cases hlast : (sections rest).getLast? with
          | some pairs =>
            rw [hlast] at hrest
            exact hrest
          | none =>
            rw [hlast] at hrest
            rw [← hrest] at hnext
            exact ⟨_, hnext⟩
        · rw [if_neg hoption] at hnext
          have hopens : ¬opensRelationships key = true := by
            intro hopens
            exact hoption ((opensRelationships_iff hwritten).mp hopens)
          rw [sections_cons_of_not_opens hopens, ← hnext]
          exact hrest

/-- A model that is read is its entries taken in one after the other, with its related names
grouped. -/
theorem exists_addEntries_of_model {name definition : Value} (h : model name definition = .ok e) :
    ∃ (start found : ModelParts) (rs : Relationships), start.declared = [] ∧
      addEntries start (pairsIn definition) = .ok found ∧
      found.declared.mapM Relationships.named = .ok rs ∧ e.relationships = rs.group := by
  unfold model at h
  cases hwritten : name.written with
  | error m =>
    rw [hwritten] at h
    cases h
  | ok shown =>
    rw [hwritten] at h
    have hread : ((addEntries ⟨{ name := afterLast '/' shown }, []⟩ (pairsIn definition)).bind
        fun m => (m.entity.make m.declared).mapError .ofRefusal).mapError (modelFailure shown) =
          .ok e := by
      cases definition with
      | null => exact h
      | mapping pairs => exact h
      | _ => cases h
    obtain ⟨found, hadd, hmake⟩ :=
      Except.bind_eq_ok_iff.mp (Except.mapError_eq_ok_iff.mp hread)
    obtain ⟨-, -, rs, hrs, rfl⟩ := make_eq_ok_iff.mp (Except.mapError_eq_ok_iff.mp hmake)
    exact ⟨_, found, rs, rfl, hadd, hrs, rfl⟩

/-- The related names of a model that is read are those of its last relationships section, and
there those of the last value of each kind. So no declared name is lost exactly when every one is
declared in that place, as it is when no kind is declared twice. -/
theorem related_iff_declaredLast {name definition : Value} (h : model name definition = .ok e) :
    (∀ kind target, (kind, target) ∈ e.related ↔ DeclaredLast definition kind target) ∧
      ((∀ kind target, Declared definition kind target → (kind, target) ∈ e.related) ↔
        ∀ kind target, Declared definition kind target → DeclaredLast definition kind target) ∧
      (DeclaredOnce definition →
        ∀ kind target, Declared definition kind target → (kind, target) ∈ e.related) := by
  have hrelated : ∀ kind target,
      (kind, target) ∈ e.related ↔ DeclaredLast definition kind target := by
    intro kind target
    obtain ⟨start, found, rs, hstart, hadd, hrs, he⟩ := exists_addEntries_of_model h
    have hdeclared := declared_of_addEntries hadd
    rw [Entity.related, he, mem_pairs_group]
    unfold DeclaredLast
    cases hlast : (sections (pairsIn definition)).getLast? with
    | none =>
      rw [hlast, hstart] at hdeclared
      rw [hdeclared] at hrs
      cases hrs
      simp [Relationships.pairs]
    | some pairs =>
      rw [hlast] at hdeclared
      obtain ⟨entity, hpairs⟩ := hdeclared
      rw [mem_named hpairs hrs]
      simp
  refine ⟨hrelated, ?_, fun honce kind target hdeclared => ?_⟩
  · simp only [hrelated]
  · exact (hrelated kind target).mpr (honce.declaredLast hdeclared)

/-- A model with names under keys of different kinds has them all. -/
theorem postModel_related :
    model (postModel [hasManyComments, belongsToUser]).1
        (postModel [hasManyComments, belongsToUser]).2 =
      .ok (postEntity [(.belongsTo, ["user"]), (.hasMany, ["comments"])]) ∧
    DeclaredOnce (postModel [hasManyComments, belongsToUser]).2 ∧
    ∀ kind target, Declared (postModel [hasManyComments, belongsToUser]).2 kind target →
      (kind, target) ∈ (postEntity [(.belongsTo, ["user"]), (.hasMany, ["comments"])]).related := by
  have hmodel : model (postModel [hasManyComments, belongsToUser]).1
      (postModel [hasManyComments, belongsToUser]).2 =
        .ok (postEntity [(.belongsTo, ["user"]), (.hasMany, ["comments"])]) :=
    model_of_addEntries (e := postEntity []) [(.hasMany, ["comments"]), (.belongsTo, ["user"])]
      rfl (by decide) (by decide) rfl
  have honce : DeclaredOnce (postModel [hasManyComments, belongsToUser]).2 := by
    have hsections : sections (pairsIn (postModel [hasManyComments, belongsToUser]).2) =
        [[hasManyComments, belongsToUser]] := rfl
    unfold DeclaredOnce
    rw [hsections]
    refine ⟨Nat.le_refl 1, ?_⟩
    intro pairs hpairs kind
    rw [List.mem_singleton.mp hpairs]
    cases kind <;> decide
  obtain ⟨-, -, hkept⟩ := related_iff_declaredLast hmodel
  exact ⟨hmodel, honce, hkept honce⟩

def hasManyTwice : Value × Value :=
  (.text "relationships",
    .mapping [(.text "hasMany", .text "comments"), (.text "HASMANY", .text "tags")])

/-- Two keys that differ in case: the names under the first are lost. -/
theorem hasManyTwice_loses_name :
    ∃ e, model (.text "Post") (.mapping [hasManyTwice]) = .ok e ∧
      Declared (.mapping [hasManyTwice]) .hasMany "comments" ∧
      (RelationshipKind.hasMany, ("comments" : Text)) ∉ e.related := by
  have hvalues : valuesOf .hasMany (pairsIn hasManyTwice.2) = [.text "comments", .text "tags"] :=
    rfl
  have hnames : Names (.text "comments") "comments" :=
    ⟨by decide, Or.inl ⟨"comments", rfl, "comments", by decide, by decide⟩⟩
  have hmodel : model (.text "Post") (.mapping [hasManyTwice]) =
      .ok { name := "Post", relationships := [(.hasMany, ["tags"])] } :=
    model_of_addEntries (e := { name := "Post" }) [(.hasMany, ["tags"])]
      rfl (by decide) (by decide) rfl
  refine ⟨_, hmodel, ⟨_, List.mem_singleton_self _, .text "comments", ?_, hnames⟩, by decide⟩
  rw [hvalues]
  exact List.mem_cons_self

end Draft

end ApiScaffold
