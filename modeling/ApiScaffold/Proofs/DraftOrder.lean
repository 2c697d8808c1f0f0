import ApiScaffold.Proofs.AcceptedSettings
import ApiScaffold.Proofs.DraftErrors
import ApiScaffold.Proofs.JobOrder
import ApiScaffold.Proofs.MergedMappings

/-!
# Drafts in another order

The models of a draft, its controllers and the keys of a relationships section may be written in
any order: the draft is read all the same, and the same files are made of it. Related names are
grouped by kind in an order of their own, so that the order of the keys is forgotten as soon as
they denote different kinds; of two keys of one kind the later one would win. The order of columns
is another matter, since it shows in the files.
-/
namespace ApiScaffold

open Text

namespace Draft

/-! ## Drafts that differ in order -/

/-- The same value, or mappings whose pairs are related. -/
inductive Remapped (related : Mapping → Mapping → Prop) : Value → Value → Prop
  | same (v : Value) : Remapped related v v
  | pairs {ps ps' : Mapping} (h : related ps ps') : Remapped related (.mapping ps) (.mapping ps')

/-- The same keys in the same order, with values that are related under each of them. -/
def Inside (related : Value → Value → Value → Prop) : Mapping → Mapping → Prop :=
  List.Forall₂ fun p p' => p'.1 = p.1 ∧ related p.1 p.2 p'.2

/-- The same pairs in another order. -/
def PairsReordered (ps ps' : Mapping) : Prop := ps'.Perm ps

/-- The key of a relationships section. -/
def IsRelationships (key : Value) : Prop :=
  ∃ t, key.written = .ok t ∧ lower t = ("relationships" : Text)

/-- Only a relationships section may have its keys in another order. -/
def EntryReordered (key v v' : Value) : Prop :=
  v' = v ∨ IsRelationships key ∧ Remapped PairsReordered v v'

def ModelReordered : Value → Value → Prop := Remapped (Inside EntryReordered)

/-- Models may change inside and then their places. -/
def ModelsReordered (ps ps' : Mapping) : Prop :=
  ∃ changed, Inside (fun _ => ModelReordered) ps changed ∧ ps'.Perm changed

def SectionReordered (key v v' : Value) : Prop :=
  v' = v ∨ key = .text "models" ∧ Remapped ModelsReordered v v' ∨
    key = .text "controllers" ∧ Remapped PairsReordered v v'

/-- A draft with its models, its controllers and the keys of its relationships sections in another
order. -/
def Reordered : Mapping → Mapping → Prop := Inside SectionReordered

/-- The kind of relationship that a key denotes. -/
def kindOf? (key : Value) : Option RelationshipKind :=
  key.written.toOption.bind relationshipKind?

def kindsOf (pairs : Mapping) : List RelationshipKind := pairs.filterMap fun p => kindOf? p.1

/-- No two keys of a relationships section of the model denote the same kind. -/
def ModelKindsDiffer (definition : Value) : Prop :=
  ∀ entries, definition = .mapping entries → ∀ entry ∈ entries, IsRelationships entry.1 →
    ∀ pairs, entry.2 = .mapping pairs → (kindsOf pairs).Nodup

def KindsDiffer (raw : Mapping) : Prop :=
  ∀ models, Mapping.getText? "models" raw = some (.mapping models) →
    ∀ model ∈ models, ModelKindsDiffer model.2

theorem inside_refl {related : Value → Value → Value → Prop} (h : ∀ key v, related key v v)
    (ps : Mapping) : Inside related ps ps :=
  List.forall₂_same.mpr fun p _ => ⟨rfl, h p.1 p.2⟩

theorem PairsReordered.refl (ps : Mapping) : PairsReordered ps ps := List.Perm.refl ps

theorem PairsReordered.length {ps ps' : Mapping} (h : PairsReordered ps ps') :
    ps'.length = ps.length :=
  List.Perm.length_eq h

theorem ModelsReordered.refl (ps : Mapping) : ModelsReordered ps ps :=
  ⟨ps, inside_refl (fun _ v => .same v) ps, .refl ps⟩

theorem ModelsReordered.length {ps ps' : Mapping} (h : ModelsReordered ps ps') :
    ps'.length = ps.length := by
  obtain ⟨changed, hinside, hperm⟩ := h
  rw [hperm.length_eq, hinside.length_eq]

/-! ## Readings that succeed -/

/-- Pairs are read one after the other when each of them is read. -/
theorem readAll_eq_ok_iff {α : Type} (read : Value × Value → Except Failure α)
    (readAll : Mapping → Except Failure (List α)) (hnil : readAll [] = .ok [])
    (hcons : ∀ p rest, readAll (p :: rest) = do
      let first ← read p
      let more ← readAll rest
      .ok (first :: more))
    {pairs : Mapping} {found : List α} :
    readAll pairs = .ok found ↔ List.Forall₂ (fun p a => read p = .ok a) pairs found := by
  induction pairs generalizing found with
  | nil => simp [hnil, eq_comm]
  | cons p rest ih =>
    rw [hcons, bind_eq_ok_iff, List.forall₂_cons_left_iff]
    simp only [bind_eq_ok_iff, ih, Except.ok.injEq]
    constructor
    · rintro ⟨first, hfirst, more, hmore, rfl⟩
      exact ⟨first, more, hfirst, hmore, rfl⟩
    · rintro ⟨first, more, hfirst, hmore, rfl⟩
      exact ⟨first, hfirst, more, hmore, rfl⟩

/-! ## Sections -/

/-- Under a name, two mappings have nothing or related values. -/
def Under (name : Text) (related : Value → Value → Prop) (raw raw' : Mapping) : Prop :=
  Mapping.getText? name raw = none ∧ Mapping.getText? name raw' = none ∨
    ∃ v v', Mapping.getText? name raw = some v ∧ Mapping.getText? name raw' = some v' ∧
      related v v'

section
variable {raw raw' ps : Mapping} {name : Text} {related related' : Value → Value → Prop}

theorem Under.imp (h : Under name related raw raw') (himp : ∀ v v', related v v' → related' v v') :
    Under name related' raw raw' :=
  Or.imp id (fun ⟨v, v', hsome, hsome', hrelated⟩ => ⟨v, v', hsome, hsome', himp v v' hrelated⟩) h

theorem under_of_inside {related : Value → Value → Value → Prop} (h : Inside related raw raw')
    (name : Text) : Under name (related (.text name)) raw raw' := by
  unfold Under Mapping.getText?
  induction h with
  | nil => exact Or.inl ⟨rfl, rfl⟩
  | @cons p p' rest rest' hp _ ih =>
    obtain ⟨key, v⟩ := p
    obtain ⟨key', v'⟩ := p'
    obtain ⟨rfl, hvalue⟩ := hp
    simp only [Mapping.get?]
    by_cases hkey : key'.sameKey (.text name) = true
    · rw [if_pos hkey, if_pos hkey]
      rw [Value.sameKey_text.mp hkey] at hvalue
      exact Or.inr ⟨v, v', rfl, rfl, hvalue⟩
    · rw [if_neg hkey, if_neg hkey]
      exact ih

/-- Related sections are read to related pairs. An empty section counts as absent, so the relation
has to keep the count of the pairs. -/
theorem sectionPairs_remapped {related : Mapping → Mapping → Prop} {wrongForm : DraftError}
    (hrefl : ∀ ps, related ps ps) (hlength : ∀ ps ps', related ps ps' → ps'.length = ps.length)
    (hsection : Under name (Remapped related) raw raw')
    (h : sectionPairs raw name wrongForm = .ok ps) :
    ∃ ps', sectionPairs raw' name wrongForm = .ok ps' ∧ related ps ps' := by
  unfold sectionPairs section? at h ⊢
  obtain ⟨hnone, hnone'⟩ | ⟨v, v', hsome, hsome', hrelated⟩ := hsection
  · rw [hnone] at h
    rw [hnone']
    exact ⟨ps, h, hrefl ps⟩
  · rw [hsome] at h
    rw [hsome']
    cases hrelated with
    | same => exact ⟨ps, h, hrefl ps⟩
    | @pairs found found' hfound =>
      have hcount := hlength found found' hfound
      cases found with
      | nil =>
        rw [List.length_eq_zero_iff.mp hcount]
        exact ⟨ps, h, hrefl ps⟩
      | cons p rest =>
        cases found' with
        | nil => cases hcount
        | cons p' rest' =>
          cases h
          exact ⟨p' :: rest', rfl, hfound⟩

theorem configuration_reordered (h : Reordered raw raw') (overrides : Value) :
    configuration raw' overrides = configuration raw overrides := by
  have hconfig : Mapping.getText? "config" raw' = Mapping.getText? "config" raw := by
    obtain ⟨hnone, hnone'⟩ | ⟨v, v', hsome, hsome', hvalue⟩ := under_of_inside h "config"
    · rw [hnone, hnone']
    · obtain rfl | ⟨hkey, -⟩ | ⟨hkey, -⟩ := hvalue
      · rw [hsome, hsome']
      · simp at hkey
      · simp at hkey
  unfold configuration section?
  rw [hconfig]

theorem models_under (h : Reordered raw raw') :
    Under "models" (Remapped ModelsReordered) raw raw' := by
  apply (under_of_inside h "models").imp
  rintro v v' (rfl | ⟨-, hmodels⟩ | ⟨hkey, -⟩)
  · exact .same _
  · exact hmodels
  · simp at hkey

theorem controllers_under (h : Reordered raw raw') :
    Under "controllers" (Remapped PairsReordered) raw raw' := by
  apply (under_of_inside h "controllers").imp
  rintro v v' (rfl | ⟨hkey, -⟩ | ⟨-, hcontrollers⟩)
  · exact .same _
  · simp at hkey
  · exact hcontrollers

end

/-! ## Relationships -/

/-- What one pair of a relationships section declares, if it is accepted. -/
def Declares (p : Value × Value)
    (found : Option (RelationshipKind × Relationships.Targets)) : Prop :=
  ∃ kind, kindOf? p.1 = some kind ∧
    (p.2 = .null ∧ found = none ∨
      ∃ targets, targets? p.2 = some targets ∧ found = some (kind, targets))

/-- Takes in what a pair declares. -/
def declareMore (declared : Declarations)
    (found : Option (RelationshipKind × Relationships.Targets)) : Declarations :=
  found.elim declared fun d => redeclare d.1 d.2 declared

section
variable {entity : Text} {pairs pairs' rest : Mapping} {declared ds ds' : Declarations}
  {rs rs' : Relationships} {founds : List (Option (RelationshipKind × Relationships.Targets))}

theorem relationshipPairs_cons_ok {p : Value × Value} :
    relationshipPairs entity (p :: rest) declared = .ok ds ↔
      ∃ found, Declares p found ∧
        relationshipPairs entity rest (declareMore declared found) = .ok ds := by
  obtain ⟨key, value⟩ := p
  unfold Declares kindOf?
  rw [relationshipPairs]
  cases key.written with
  | error m => simp [Except.mapError, Except.bind, Except.toOption]
  | ok shown =>
    cases hkind : relationshipKind? shown with
    | none => simp [Except.mapError, Except.bind, Except.toOption, hkind]
    | some kind =>
      cases value <;>
        simp [Except.mapError, Except.bind, Except.toOption, hkind, declareMore, targets?]

/-- A section is accepted when each pair declares something, or nothing by a null. -/
theorem relationshipPairs_eq_ok_iff :
    relationshipPairs entity pairs declared = .ok ds ↔
      ∃ founds, List.Forall₂ Declares pairs founds ∧ ds = founds.foldl declareMore declared := by
  induction pairs generalizing declared with
  | nil => simp [relationshipPairs, eq_comm]
  | cons p rest ih =>
    simp only [relationshipPairs_cons_ok, ih, List.forall₂_cons_left_iff]
    constructor
    · rintro ⟨found, hfound, founds, hfounds, rfl⟩
      exact ⟨found :: founds, ⟨found, founds, hfound, hfounds, rfl⟩, rfl⟩
    · rintro ⟨-, ⟨found, founds, hfound, hfounds, rfl⟩, rfl⟩
      exact ⟨found, hfound, founds, hfounds, rfl⟩

theorem redeclare_of_notMem {kind : RelationshipKind} {targets : Relationships.Targets}
    (h : kind ∉ declared.map Prod.fst) :
    redeclare kind targets declared = declared ++ [(kind, targets)] := by
  induction declared with
  | nil => rfl
  | cons d rest ih =>
    rw [List.map_cons, List.mem_cons, not_or] at h
    rw [redeclare, if_neg (Ne.symm h.1), ih h.2, List.cons_append]

/-- Different kinds are declared one after the other. -/
theorem foldl_declareMore (declared : Declarations)
    (h : (declared.map Prod.fst ++ (founds.filterMap id).map Prod.fst).Nodup) :
    founds.foldl declareMore declared = declared ++ founds.filterMap id := by
  induction founds generalizing declared with
  | nil => simp
  | cons found rest ih =>
    cases found with
    | none => exact ih declared h
    | some d =>
      -- A kind met before would be put in the place of the earlier one.
      have hnew : d.1 ∉ declared.map Prod.fst := by
        intro hmem
        exact (List.nodup_append.mp h).2.2 _ hmem _ List.mem_cons_self rfl
      have hstep : declareMore declared (some d) = declared ++ [d] := redeclare_of_notMem hnew
      rw [List.foldl_cons, hstep, ih (declared ++ [d]) (by simpa using h)]
      simp

/-- Only kinds that a key denotes are declared. -/
theorem declared_sublist (h : List.Forall₂ Declares pairs founds) :
    ((founds.filterMap id).map Prod.fst).Sublist (kindsOf pairs) := by
  unfold kindsOf
  induction h with
  | nil => exact .refl _
  | cons hfound _ ih =>
    obtain ⟨kind, hkind, ⟨-, rfl⟩ | ⟨targets, -, rfl⟩⟩ := hfound
    · rw [List.filterMap_cons_some (f := fun p : Value × Value => kindOf? p.1) hkind]
      exact ih.cons kind
    · rw [List.filterMap_cons_some (f := fun p : Value × Value => kindOf? p.1) hkind]
      exact ih.cons_cons kind

/-- What has one of different keys is found in any order. -/
theorem filter_key_perm {α β : Type} [DecidableEq β] {key : α → β} {l l' : List α}
    (h : l'.Perm l) (hkeys : (l.map key).Nodup) (b : β) :
    l'.filter (key · = b) = l.filter (key · = b) := by
  have hperm := h.filter (key · = b)
  have hnodup : ((l.filter (key · = b)).map key).Nodup :=
    hkeys.sublist (List.filter_sublist.map key)
  have hall : ∀ a ∈ l.filter (key · = b), key a = b := by
    intro a ha
    simpa using (List.mem_filter.mp ha).2
  cases hfound : l.filter (key · = b) with
  | nil =>
    rw [hfound] at hperm
    exact hperm.eq_nil
  | cons a rest =>
    rw [hfound] at hperm hnodup hall
    cases rest with
    | nil => exact List.perm_singleton.mp hperm
    | cons a' rest =>
      have hsame : key a = key a' := by simp [hall]
      simp [hsame] at hnodup

/-- Groups of different kinds do not depend on the order of their declarations. -/
theorem group_perm (h : rs'.Perm rs) (hkinds : (rs.map Prod.fst).Nodup) :
    Relationships.group rs' = Relationships.group rs := by
  unfold Relationships.group
  simp only [filter_key_perm h hkinds]

/-- What is declared leads to the same groups, if it is accepted. -/
def SameGroups (ds ds' : Declarations) : Prop :=
  ∀ rs, ds.mapM Relationships.named = .ok rs →
    ∃ rs', ds'.mapM Relationships.named = .ok rs' ∧
      Relationships.group rs' = Relationships.group rs

theorem SameGroups.refl (ds : Declarations) : SameGroups ds ds := fun rs hrs => ⟨rs, hrs, rfl⟩

theorem kinds_named (h : ds.mapM Relationships.named = .ok rs) :
    rs.map Prod.fst = ds.map Prod.fst := by
  induction Except.mapM_eq_ok_iff.mp h with
  | nil => rfl
  | @cons d r ds rs hr hrest ih =>
    obtain ⟨names, -, rfl⟩ := Except.map_eq_ok_iff.mp hr
    rw [List.map_cons, List.map_cons, ih (Except.mapM_eq_ok_iff.mpr hrest)]

/-- Different kinds are named in any order. -/
theorem sameGroups_of_perm (h : ds'.Perm ds) (hkinds : (ds.map Prod.fst).Nodup) :
    SameGroups ds ds' := by
  intro rs hrs
  obtain ⟨rs', hrs', hsame⟩ := List.perm_comp_forall₂ h (Except.mapM_eq_ok_iff.mp hrs)
  have hnames : (rs.map Prod.fst).Nodup := by
    rw [kinds_named hrs]
    exact hkinds
  exact ⟨rs', Except.mapM_eq_ok_iff.mpr hrs', group_perm hsame hnames⟩

/-- A section with different kinds declares the same groups in any order of its keys. -/
theorem relationships_remapped {v v' : Value} (h : Remapped PairsReordered v v')
    (hkinds : ∀ pairs, v = .mapping pairs → (kindsOf pairs).Nodup)
    (hds : relationships entity v = .ok ds) :
    ∃ ds', relationships entity v' = .ok ds' ∧ SameGroups ds ds' := by
  cases h with
  | same => exact ⟨ds, hds, .refl ds⟩
  | @pairs ps ps' hperm =>
    obtain ⟨founds, hfounds, rfl⟩ := relationshipPairs_eq_ok_iff.mp hds
    obtain ⟨founds', hfounds', hsame⟩ := List.perm_comp_forall₂ hperm hfounds
    have hdeclared : (founds.filterMap id).Perm (founds'.filterMap id) := (hsame.filterMap id).symm
    have hnodup : ((founds.filterMap id).map Prod.fst).Nodup :=
      (hkinds ps rfl).sublist (declared_sublist hfounds)
    have hnodup' : ((founds'.filterMap id).map Prod.fst).Nodup :=
      (hdeclared.map Prod.fst).nodup_iff.mp hnodup
    refine ⟨_, relationshipPairs_eq_ok_iff.mpr ⟨founds', hfounds', rfl⟩, ?_⟩
    rw [foldl_declareMore [] hnodup, foldl_declareMore [] hnodup', List.nil_append,
      List.nil_append]
    exact sameGroups_of_perm hdeclared.symm hnodup

end

/-! ## Names met more than once -/

theorem distinct_eq_nil {texts : List Text} : distinct texts = [] ↔ texts = [] := by
  cases texts <;> simp [distinct]

theorem repeated_eq_nil {texts : List Text} : repeated texts = [] ↔ texts.Nodup := by
  have hsort : ∀ ts, sort ts = [] ↔ ts = [] := fun ts => by
    rw [← List.length_eq_zero_iff, sort, List.length_mergeSort, List.length_eq_zero_iff]
  rw [repeated, hsort, distinct_eq_nil, List.filter_eq_nil_iff, List.nodup_iff_count_le_one]
  constructor
  · intro h t
    by_cases ht : t ∈ texts
    · simpa using h t ht
    · rw [List.count_eq_zero_of_not_mem ht]
      exact Nat.zero_le 1
  · intro h t _
    simpa using h t

theorem distinctColumns_eq_ok_iff {e e' : Entity} :
    e.distinctColumns = .ok e' ↔ e' = e ∧ e.columnNames.Nodup := by
  rw [← repeated_eq_nil, Entity.distinctColumns]
  cases repeated e.columnNames with
  | nil => simp [eq_comm]
  | cons name names => simp [Checked.refuse]

/-! ## Models -/

section
variable {e e' : Entity} {m m' m₁ : ModelParts} {declared : Declarations}

theorem make_eq_ok_iff : e.make declared = .ok e' ↔
    Check.nonEmptyText (.text e.name) = .ok e.name ∧ e.columnNames.Nodup ∧
      ∃ rs, declared.mapM Relationships.named = .ok rs ∧
        e' = { e with relationships := Relationships.group rs } := by
  have hname : ∀ name, Check.nonEmptyText (.text e.name) = .ok name → name = e.name := by
    intro name h
    cases htext : e.name with
    | nil => rw [htext] at h; cases h
    | cons c rest => rw [htext] at h; cases h; rfl
  unfold Entity.make
  rw [Except.bind_eq_ok_iff]
  constructor
  · rintro ⟨⟨name, rs⟩, hboth, hmade⟩
    obtain ⟨hchecked, hrs⟩ := Checked.both_eq_ok_iff.mp hboth
    obtain ⟨rfl, hcolumns⟩ := distinctColumns_eq_ok_iff.mp hmade
    rw [Checked.below_eq_ok_iff] at hchecked hrs
    rw [hname name hchecked] at hchecked
    exact ⟨hchecked, hcolumns, rs, hrs, rfl⟩
  · rintro ⟨hchecked, hcolumns, rs, hrs, rfl⟩
    refine ⟨(e.name, rs), Checked.both_eq_ok_iff.mpr ?_,
      distinctColumns_eq_ok_iff.mpr ⟨rfl, hcolumns⟩⟩
    exact ⟨Checked.below_eq_ok_iff.mpr hchecked, Checked.below_eq_ok_iff.mpr hrs⟩

/-- Parts of a model that are the same once the related names are grouped. -/
def Alike (m m' : ModelParts) : Prop :=
  m'.entity = m.entity ∧ SameGroups m.declared m'.declared

theorem Alike.refl (m : ModelParts) : Alike m m := ⟨rfl, .refl m.declared⟩

theorem Alike.make (h : Alike m m') (hmake : m.entity.make m.declared = .ok e) :
    m'.entity.make m'.declared = .ok e := by
  obtain ⟨hentity, hgroups⟩ := h
  obtain ⟨hname, hcolumns, rs, hrs, rfl⟩ := make_eq_ok_iff.mp hmake
  obtain ⟨rs', hrs', hgroup⟩ := hgroups rs hrs
  rw [hentity, ← hgroup]
  exact make_eq_ok_iff.mpr ⟨hname, hcolumns, rs', hrs', rfl⟩

theorem addEntry_alike {key : Text} {v v' : Value} (h : Alike m m')
    (hv : v' = v ∨ lower key = ("relationships" : Text) ∧
      Remapped PairsReordered v v')
    (hkinds : lower key = ("relationships" : Text) →
      ∀ pairs, v = .mapping pairs → (kindsOf pairs).Nodup)
    (hadd : addEntry m key v = .ok m₁) : ∃ m₁', addEntry m' key v' = .ok m₁' ∧ Alike m₁ m₁' := by
  obtain ⟨entity, declared⟩ := m
  obtain ⟨entity', declared'⟩ := m'
  obtain ⟨rfl, hgroups⟩ := h
  unfold addEntry at hadd ⊢
  by_cases hoption : lower key = ("relationships" : Text)
  · simp only [if_pos hoption] at hadd ⊢
    have hremapped : Remapped PairsReordered v v' := by
      rcases hv with rfl | ⟨-, hv⟩
      · exact .same _
      · exact hv
    obtain ⟨found, hfound, rfl⟩ := Except.map_eq_ok_iff.mp hadd
    obtain ⟨found', hfound', hsame⟩ :=
      relationships_remapped hremapped (hkinds hoption) hfound
    exact ⟨_, Except.map_eq_ok_iff.mpr ⟨found', hfound', rfl⟩, rfl, hsame⟩
  · obtain rfl : v' = v := hv.resolve_right fun hno => hoption hno.1
    simp only [if_neg hoption] at hadd ⊢
    split_ifs at hadd ⊢
    · cases hadd
      exact ⟨_, rfl, rfl, hgroups⟩
    · cases hadd
      exact ⟨_, rfl, rfl, hgroups⟩
    · cases hadd
      exact ⟨_, rfl, rfl, hgroups⟩
    · obtain ⟨c, hcolumn, rfl⟩ := Except.map_eq_ok_iff.mp hadd
      exact ⟨_, Except.map_eq_ok_iff.mpr ⟨c, hcolumn, rfl⟩, rfl, hgroups⟩

theorem addEntries_alike {entries entries' : Mapping} (h : Inside EntryReordered entries entries')
    (hkinds : ModelKindsDiffer (.mapping entries)) (hm : Alike m m')
    (hadd : addEntries m entries = .ok m₁) :
    ∃ m₁', addEntries m' entries' = .ok m₁' ∧ Alike m₁ m₁' := by
  induction h generalizing m m' with
  | nil =>
    cases hadd
    exact ⟨m', rfl, hm⟩
  | @cons p p' rest rest' hp _ ih =>
    obtain ⟨key, v⟩ := p
    obtain ⟨key', v'⟩ := p'
    obtain ⟨rfl, hvalue⟩ := hp
    have hentries := hkinds _ rfl
    simp only [addEntries] at hadd ⊢
    cases hwritten : key'.written with
    | error m => rw [hwritten] at hadd; cases hadd
    | ok shown =>
      simp only [hwritten, Except.mapError, Except.bind] at hadd ⊢
      cases hfirst : addEntry m shown v with
      | error f => rw [hfirst] at hadd; cases hadd
      | ok next =>
        rw [hfirst] at hadd
        have hv : v' = v ∨ lower shown = ("relationships" : Text) ∧
            Remapped PairsReordered v v' := by
          refine hvalue.imp id ?_
          rintro ⟨⟨t, ht, hoption⟩, hremapped⟩
          rw [hwritten] at ht
          cases ht
          exact ⟨hoption, hremapped⟩
        obtain ⟨next', hnext', halike⟩ := addEntry_alike hm hv
          (fun hoption => hentries _ List.mem_cons_self ⟨shown, hwritten, hoption⟩) hfirst
        rw [hnext']
        refine ih ?_ halike hadd
        intro found hfound entry hentry
        cases hfound
        exact hentries entry (List.mem_cons_of_mem _ hentry)

/-- A model is read to the same entity. -/
theorem model_reordered {name v v' : Value} (h : ModelReordered v v') (hkinds : ModelKindsDiffer v)
    (hmodel : model name v = .ok e) : model name v' = .ok e := by
  cases h with
  | same => exact hmodel
  | @pairs entries entries' hentries =>
    unfold model at hmodel ⊢
    cases hwritten : name.written with
    | error m => rw [hwritten] at hmodel; cases hmodel
    | ok shown =>
      simp only [hwritten, Except.mapError, Except.bind] at hmodel ⊢
      cases hadd : addEntries ⟨{ name := afterLast '/' shown }, []⟩ entries with
      | error f => rw [hadd] at hmodel; cases hmodel
      | ok found =>
        obtain ⟨found', hadd', halike⟩ := addEntries_alike hentries hkinds (.refl _) hadd
        rw [hadd] at hmodel
        rw [hadd']
        cases hmake : found.entity.make found.declared with
        | error r => simp only [hmake] at hmodel; cases hmodel
        | ok made =>
          simp only [hmake] at hmodel
          simp only [halike.make hmake]
          exact hmodel

theorem make_of_columnNames {rs : Relationships} (hname : e.name ≠ [])
    (hcolumns : e.columnNames.Nodup) (hrs : declared.mapM Relationships.named = .ok rs) :
    e.make declared = .ok { e with relationships := Relationships.group rs } := by
  have hchecked : Check.nonEmptyText (.text e.name) = .ok e.name := by
    cases htext : e.name with
    | nil => exact absurd htext hname
    | cons c rest => rfl
  exact make_eq_ok_iff.mpr ⟨hchecked, hcolumns, rs, hrs, rfl⟩

/-- A model whose name is not empty, whose columns have different names and whose related names
are accepted. -/
theorem model_of_addEntries {name : Text} {entries : Mapping} (rs : Relationships)
    (hadd : addEntries ⟨{ name := afterLast '/' name }, []⟩ entries = .ok ⟨e, declared⟩)
    (hname : e.name ≠ []) (hcolumns : e.columnNames.Nodup)
    (hrs : declared.mapM Relationships.named = .ok rs) : model (.text name) (.mapping entries) =
      .ok { e with relationships := Relationships.group rs } := by
  have hwritten : (Value.text name).written = .ok name := rfl
  simp only [model, hwritten, Except.mapError, Except.bind, hadd,
    make_of_columnNames hname hcolumns hrs]

theorem models_eq_ok_iff {pairs : Mapping} {es : List Entity} :
    models pairs = .ok es ↔ List.Forall₂ (fun p e => model p.1 p.2 = .ok e) pairs es :=
  readAll_eq_ok_iff (fun p => model p.1 p.2) models rfl fun _ _ => rfl

theorem models_inside {pairs changed : Mapping} {es : List Entity}
    (h : Inside (fun _ => ModelReordered) pairs changed)
    (hkinds : ∀ p ∈ pairs, ModelKindsDiffer p.2) (hmodels : models pairs = .ok es) :
    models changed = .ok es := by
  rw [models_eq_ok_iff] at hmodels ⊢
  induction h generalizing es with
  | nil => exact hmodels
  | @cons p p' rest rest' hp _ ih =>
    cases hmodels with
    | cons hfirst hrest =>
      refine .cons ?_ (ih (fun q hq => hkinds q (List.mem_cons_of_mem _ hq)) hrest)
      rw [hp.1]
      exact model_reordered hp.2 (hkinds p List.mem_cons_self) hfirst

theorem models_reordered {pairs pairs' : Mapping} {es : List Entity}
    (h : ModelsReordered pairs pairs') (hkinds : ∀ p ∈ pairs, ModelKindsDiffer p.2)
    (hmodels : models pairs = .ok es) : ∃ es', models pairs' = .ok es' ∧ es'.Perm es := by
  obtain ⟨changed, hinside, hperm⟩ := h
  have hchanged := models_eq_ok_iff.mp (models_inside hinside hkinds hmodels)
  obtain ⟨es', hall, hsame⟩ := List.perm_comp_forall₂ hperm hchanged
  exact ⟨es', models_eq_ok_iff.mpr hall, hsame⟩

end

/-! ## Controllers -/

theorem controllers_eq_ok_iff {defaults : List Text} {pairs : Mapping} {cs : List Controller} :
    controllers defaults pairs = .ok cs ↔
      List.Forall₂ (fun p c => controller p.1 p.2 defaults = .ok c) pairs cs :=
  readAll_eq_ok_iff (fun p => controller p.1 p.2 defaults) (controllers defaults) rfl
    fun _ _ => rfl

theorem controllers_perm {defaults : List Text} {pairs pairs' : Mapping} {cs : List Controller}
    (h : PairsReordered pairs pairs') (hcontrollers : controllers defaults pairs = .ok cs) :
    ∃ cs', controllers defaults pairs' = .ok cs' ∧ cs'.Perm cs := by
  obtain ⟨cs', hall, hsame⟩ := List.perm_comp_forall₂ h (controllers_eq_ok_iff.mp hcontrollers)
  exact ⟨cs', controllers_eq_ok_iff.mpr hall, hsame⟩

/-! ## Whole drafts -/

theorem distinctEntities_eq_ok_iff {schema schema' : Schema} :
    schema.distinctEntities = .ok schema' ↔ schema' = schema ∧ schema.entityNames.Nodup := by
  rw [← repeated_eq_nil, Schema.distinctEntities]
  cases repeated schema.entityNames with
  | nil => simp [eq_comm]
  | cons name names => simp [Checked.refuse]

section
variable {raw raw' : Mapping} {overrides : Value} {sourceFile : Option Text} {schema : Schema}
  {c : Configuration}

/-- What reading a draft comes to when nothing is wrong. -/
theorem parse_eq_ok_iff : parse raw overrides sourceFile = .ok (schema, c) ↔
    configuration raw overrides = .ok c ∧
    (∃ ps, sectionPairs raw "models" .modelsForm = .ok ps ∧ models ps = .ok schema.entities) ∧
    (∃ ps, sectionPairs raw "controllers" .controllersForm = .ok ps ∧
      controllers c.settings.defaultControllerMethods ps = .ok schema.controllers) ∧
    schema.sourceFile = sourceFile ∧ schema.entityNames.Nodup := by
  unfold parse
  constructor
  · intro h
    obtain ⟨own, hown, h⟩ := bind_eq_ok_iff.mp h
    obtain ⟨ms, hms, h⟩ := bind_eq_ok_iff.mp h
    obtain ⟨cs, hcs, h⟩ := bind_eq_ok_iff.mp h
    obtain ⟨entities, hentities, h⟩ := bind_eq_ok_iff.mp h
    obtain ⟨found, hfound, h⟩ := bind_eq_ok_iff.mp h
    split at h
    · rename_i checked hchecked
      cases h
      obtain ⟨rfl, hnames⟩ := distinctEntities_eq_ok_iff.mp hchecked
      exact ⟨hown, ⟨ms, hms, hentities⟩, ⟨cs, hcs, hfound⟩, rfl, hnames⟩
    · cases h
    · cases h
  · rintro ⟨hown, ⟨ms, hms, hentities⟩, ⟨cs, hcs, hfound⟩, rfl, hnames⟩
    have hchecked : Schema.distinctEntities schema = .ok schema :=
      distinctEntities_eq_ok_iff.mpr ⟨rfl, hnames⟩
    simp only [hown, hms, hcs, hentities, hfound, hchecked, bind, Except.bind]

/-- A draft that is read is read in any order of its models, its controllers and the keys of its
relationships sections, and the same files are made of it, as long as the keys of one section
denote different kinds. -/
theorem parse_reordered (hreordered : Reordered raw raw') (hkinds : KindsDiffer raw)
    (hparse : parse raw overrides sourceFile = .ok (schema, c)) :
    ∃ schema', parse raw' overrides sourceFile = .ok (schema', c) ∧
      ∀ site tree, Job.SameFiles (renderSchema site tree schema c.settings)
        (renderSchema site tree schema' c.settings) := by
  obtain ⟨hown, ⟨ms, hms, hentities⟩, ⟨cs, hcs, hfound⟩, hsource, hnames⟩ :=
    parse_eq_ok_iff.mp hparse
  obtain ⟨ms', hms', hmodels⟩ := sectionPairs_remapped ModelsReordered.refl
    (fun _ _ => ModelsReordered.length) (models_under hreordered) hms
  obtain ⟨cs', hcs', hcontrollers⟩ := sectionPairs_remapped PairsReordered.refl
    (fun _ _ => PairsReordered.length) (controllers_under hreordered) hcs
  have hdiffer : ∀ p ∈ ms, ModelKindsDiffer p.2 :=
    (sectionPairs_ok hms).mpr fun ps hps => hkinds ps (Option.filter_eq_some_iff.mp hps).1
  obtain ⟨entities', hentities', hpermEntities⟩ := models_reordered hmodels hdiffer hentities
  obtain ⟨found', hfound', hpermFound⟩ := controllers_perm hcontrollers hfound
  have hshuffled : schema.Shuffled ⟨entities', found', sourceFile⟩ := ⟨hpermEntities, hpermFound⟩
  refine ⟨⟨entities', found', sourceFile⟩, parse_eq_ok_iff.mpr ⟨?_, ⟨ms', hms', hentities'⟩,
    ⟨cs', hcs', hfound'⟩, rfl, hshuffled.entityNames.nodup_iff.mpr hnames⟩, fun site tree =>
      Job.sameFiles_of_shuffled hshuffled hnames site tree c.settings⟩
  rw [configuration_reordered hreordered]
  exact hown

end

def userModel : Value × Value := (.text "User", .mapping [(.text "email", .text "string")])

/-- A post with relationships of two kinds; keys are in any case of their letters. -/
def postModel (relationships : Mapping) : Value × Value :=
  (.text "Post", .mapping [(.text "title", .text "string"),
    (.text "Relationships", .mapping relationships)])

def hasManyComments : Value × Value := (.text "HasMany", .text "comments")

def belongsToUser : Value × Value := (.text "belongsTo", .text "user")

def postController : Value × Value := (.text "Api/Post", .mapping [(.text "index", .null)])

def userController : Value × Value := (.text "Api/User", .null)

def postsAndUsers : Mapping :=
  [(.text "models", .mapping [userModel, postModel [hasManyComments, belongsToUser]]),
    (.text "controllers", .mapping [postController, userController])]

/-- The same draft with all that may change its place. -/
def usersAndPosts : Mapping :=
  [(.text "models", .mapping [postModel [belongsToUser, hasManyComments], userModel]),
    (.text "controllers", .mapping [userController, postController])]

def userEntity : Entity := { name := "User", columns := [{ name := "email" }] }

def postEntity (relationships : Relationships) : Entity :=
  { name := "Post", columns := [{ name := "title" }], relationships }

def postsAndUsersSchema : Schema :=
  { entities := [userEntity, postEntity [(.belongsTo, ["user"]), (.hasMany, ["comments"])]]
    controllers := [{ name := "Post", methods := ["index"] }, { name := "User" }] }

theorem postsAndUsers_parsed :
    parse postsAndUsers .null none = .ok (postsAndUsersSchema, {}) := by
  have huser : model userModel.1 userModel.2 = .ok userEntity :=
    model_of_addEntries (e := userEntity) [] rfl (by decide) (by decide) rfl
  have hpost : model (postModel [hasManyComments, belongsToUser]).1
      (postModel [hasManyComments, belongsToUser]).2 =
        .ok (postEntity [(.belongsTo, ["user"]), (.hasMany, ["comments"])]) :=
    model_of_addEntries (e := postEntity []) [(.hasMany, ["comments"]), (.belongsTo, ["user"])]
      rfl (by decide) (by decide) rfl
  exact parse_eq_ok_iff.mpr ⟨rfl, ⟨_, rfl, models_eq_ok_iff.mpr (.cons huser (.cons hpost .nil))⟩,
    ⟨_, rfl, rfl⟩, rfl, by decide⟩

theorem postsAndUsers_reordered : Reordered postsAndUsers usersAndPosts := by
  have hkey : IsRelationships (.text "Relationships") := ⟨_, rfl, by decide⟩
  have hpost : ModelReordered (postModel [hasManyComments, belongsToUser]).2
      (postModel [belongsToUser, hasManyComments]).2 :=
    .pairs (.cons ⟨rfl, Or.inl rfl⟩
      (.cons ⟨rfl, Or.inr ⟨hkey, .pairs (List.Perm.swap _ _ _)⟩⟩ .nil))
  have hmodels : ModelsReordered [userModel, postModel [hasManyComments, belongsToUser]]
      [postModel [belongsToUser, hasManyComments], userModel] :=
    ⟨[userModel, postModel [belongsToUser, hasManyComments]],
      .cons ⟨rfl, .same _⟩ (.cons ⟨rfl, hpost⟩ .nil), List.Perm.swap _ _ _⟩
  exact .cons ⟨rfl, Or.inr (Or.inl ⟨rfl, .pairs hmodels⟩)⟩
    (.cons ⟨rfl, Or.inr (Or.inr ⟨rfl, .pairs (List.Perm.swap _ _ _)⟩)⟩ .nil)

theorem postsAndUsers_kindsDiffer : KindsDiffer postsAndUsers := by
  intro models hmodels
  cases hmodels
  refine List.forall_mem_cons.mpr ⟨?user, List.forall_mem_singleton.mpr ?post⟩
  case user =>
    intro entries hentries
    cases hentries
    refine List.forall_mem_singleton.mpr fun _ pairs hpairs => ?_
    cases hpairs
  case post =>
    intro entries hentries
    cases hentries
    refine List.forall_mem_cons.mpr ⟨fun _ pairs hpairs => ?_,
      List.forall_mem_singleton.mpr fun _ pairs hpairs => ?_⟩
    · cases hpairs
    · cases hpairs
      decide

theorem postsAndUsers_in_any_order :
    Reordered postsAndUsers usersAndPosts ∧ KindsDiffer postsAndUsers ∧
      parse postsAndUsers .null none = .ok (postsAndUsersSchema, {}) ∧
      ∃ schema', parse usersAndPosts .null none = .ok (schema', {}) ∧
        ∀ site tree, Job.SameFiles (renderSchema site tree postsAndUsersSchema {})
          (renderSchema site tree schema' {}) :=
  ⟨postsAndUsers_reordered, postsAndUsers_kindsDiffer, postsAndUsers_parsed,
    parse_reordered postsAndUsers_reordered postsAndUsers_kindsDiffer postsAndUsers_parsed⟩

end Draft

end ApiScaffold
