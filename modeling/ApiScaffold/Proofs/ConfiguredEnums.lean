import ApiScaffold.ClassNames
import ApiScaffold.Proofs.Refinement

/-!
# Configured enum classes

An enum class may be configured under a key made of an entity and a column. The checks look the
entity of a key up as they look up any name, in the singular and in any spelling, but the class is
found under the very name of the entity alone. So a key that the checks have nothing to say about
is honoured when it spells the entity's name; otherwise it is passed over, and it makes no
difference only if another key or a guess comes to the same class.
-/
namespace ApiScaffold

open Text

theorem Text.eq_of_cutAt {c : Char} {t front rest : Text} (h : cutAt c t = (front, some rest)) :
    t = front ++ c :: rest := by
  unfold cutAt at h
  split at h
  · cases h
  · rename_i d after hdrop
    obtain ⟨rfl, hrest⟩ := Prod.mk.inj h
    obtain rfl := Option.some.inj hrest
    have hd : d = c := by
      have hhead := List.head?_dropWhile_not (· != c) t
      rw [hdrop] at hhead
      simpa using hhead
    calc t = t.takeWhile (· != c) ++ t.dropWhile (· != c) := (List.takeWhile_append_dropWhile).symm
      _ = t.takeWhile (· != c) ++ c :: after := by rw [hdrop, hd]

theorem isColumnKey_dot (t : Text) : isColumnKey ('.' :: t) = false := rfl

/-- The entity of a column key is not empty, read as a line or not. -/
theorem not_asLine_isColumnKey_dot (t : Text) : asLine isColumnKey ('.' :: t) = false := by
  unfold asLine
  rw [isColumnKey_dot, Bool.false_or]
  cases t with
  | nil => rfl
  | cons c rest =>
    have hdrop : dropEnd 1 ('.' :: c :: rest) = '.' :: dropEnd 1 (c :: rest) := rfl
    rw [hdrop, isColumnKey_dot, Bool.and_false]

namespace Check

variable {tree : Tree} {cwd : Path} {schema : Schema} {s : Settings} {found : Report}
  {key part column : Text}

def invalidKey : Text := "INVALID_ENUM_CLASS_KEY"

def unknownEntity : Text := "ENUM_CLASS_UNKNOWN_ENTITY"

/-- The checks have nothing to say about a key of the configured enum classes. -/
def Accepts (found : Report) (key : Text) : Prop :=
  ∀ f ∈ found.findings, f.code = invalidKey ∨ f.code = unknownEntity →
    f.context ≠ about [("key", key)]

theorem mem_settings_of_enumKey {onSettings : Report} (h : settings tree cwd s = .ok onSettings)
    {p : Text × Text} (hp : p ∈ s.enumClasses) {f : Finding} (hf : f ∈ enumKey p.1) :
    f ∈ onSettings.findings := by
  have hkeys : f ∈ s.enumClasses.flatMap fun p => enumKey p.1 := List.mem_flatMap.mpr ⟨p, hp, hf⟩
  unfold settings at h
  cases hstubs : stubDirectories tree cwd s.stubPaths with
  | error e =>
    rw [hstubs] at h
    cases h
  | ok stubs =>
    rw [hstubs] at h
    cases h
    simp only [List.mem_append]
    exact Or.inl (Or.inl (Or.inr hkeys))

theorem mem_full_of_enumKey (h : full tree cwd schema s = .ok found) {p : Text × Text}
    (hp : p ∈ s.enumClasses) {f : Finding} (hf : f ∈ enumKey p.1 ++ enumKeyEntity schema p.1) :
    f ∈ found.findings := by
  obtain ⟨onSchema, onSettings, -, hsettings, hfound⟩ := full_findings h
  rw [hfound]
  rcases List.mem_append.mp hf with hf | hf
  · have hmem := mem_settings_of_enumKey hsettings hp hf
    simp [hmem]
  · have hmem : f ∈ s.enumClasses.flatMap fun p => enumKeyEntity schema p.1 :=
      List.mem_flatMap.mpr ⟨p, hp, hf⟩
    exact List.mem_append_right _ hmem

/-- The entity of an accepted key is found. -/
theorem entity_of_accepted (h : full tree cwd schema s = .ok found) {p : Text × Text}
    (hp : p ∈ s.enumClasses) (haccepts : Accepts found p.1)
    (hkey : cutAt '.' p.1 = (part, some column)) : ∃ e, schema.entity? part = some e := by
  have hmem := fun f hf => mem_full_of_enumKey h hp (f := f) hf
  have hpart : part ≠ [] := by
    intro hnil
    have hline : asLine isColumnKey p.1 = false := by
      rw [eq_of_cutAt hkey, hnil]
      exact not_asLine_isColumnKey_dot column
    have hf := hmem _ (List.mem_append_left _ (mem_findingIf (by rw [hline]; rfl)))
    exact haccepts _ hf (Or.inl rfl) rfl
  cases he : schema.entity? part with
  | some e => exact ⟨e, rfl⟩
  | none =>
    have hentity : keyEntity? p.1 = some part := by
      unfold keyEntity?
      rw [hkey]
      exact if_neg hpart
    have hfinding : (⟨.warning, unknownEntity, "enum_classes key '" ++ p.1 ++
        "' refers to unknown entity '" ++ part ++ "'.", about [("key", p.1)]⟩ : Finding) ∈
          enumKeyEntity schema p.1 := by
      unfold enumKeyEntity
      rw [hentity]
      exact mem_findingIf (by rw [he]; rfl)
    exact absurd rfl (haccepts _ (hmem _ (List.mem_append_right _ hfinding)) (Or.inr rfl))

end Check

namespace ClassNames

variable {s : Settings} {key cls : Text} {e : Entity} {c : Column}

/-- The name that is configured under a key. -/
def configured? (s : Settings) (key : Text) : Option Text :=
  (s.enumClasses.find? fun p => p.1 = key).map (·.2)

/-- What a column comes to when nothing is configured for its entity. -/
def columnEnum (s : Settings) (entity column : Text) : Text :=
  match configured? s column with
  | some name => qualifiedEnum s name
  | none => guessedEnum s entity column

def declaresEnum (c : Column) : Bool :=
  ((Mapping.getText? "enum_class" c.attributes).filter Value.isTruthy).isSome

/-- The key that is looked for. -/
def exactKey (e : Entity) (c : Column) : Text := e.name ++ "." ++ c.name

/-- The column has the configured class, or the one under the exact name of its entity. -/
def Honours (s : Settings) (cls : Text) (e : Entity) (c : Column) : Prop :=
  enumClass s c e.name = .ok (qualifiedEnum s cls) ∨
    ∃ exact, configured? s (exactKey e c) = some exact ∧
      enumClass s c e.name = .ok (qualifiedEnum s exact)

theorem mem_of_configured? (h : configured? s key = some cls) : ∃ p ∈ s.enumClasses, p.1 = key := by
  obtain ⟨p, hp, -⟩ := Option.map_eq_some_iff.mp h
  have hkey := List.find?_some hp
  exact ⟨p, List.mem_of_find?_eq_some hp, by simpa using hkey⟩

/-- Without a declared class, the exact key decides, and then the column alone. -/
theorem enumClass_of_undeclared (h : declaresEnum c = false) (entity : Text) :
    enumClass s c entity =
      .ok (match configured? s (entity ++ "." ++ c.name) with
        | some name => qualifiedEnum s name
        | none => columnEnum s entity c.name) := by
  have hnone : (Mapping.getText? "enum_class" c.attributes).filter Value.isTruthy = none := by
    rw [← Option.not_isSome_iff_eq_none, Bool.not_eq_true]
    exact h
  have hconfigured : configuredEnum? s entity c.name =
      (configured? s (entity ++ "." ++ c.name)).or (configured? s c.name) := rfl
  unfold enumClass undeclaredEnum columnEnum
  rw [hnone, hconfigured]
  cases configured? s (entity ++ "." ++ c.name) <;> rfl

theorem honours_iff (h : declaresEnum c = false) : Honours s cls e c ↔
    (configured? s (exactKey e c)).isSome ∨
      columnEnum s e.name c.name = qualifiedEnum s cls := by
  unfold Honours
  rw [enumClass_of_undeclared h]
  unfold exactKey
  cases configured? s (e.name ++ "." ++ c.name) with
  | none => simp
  | some exact => simp

variable {tree : Tree} {cwd : Path} {schema : Schema} {found : Report} {part column : Text}

/-- A key of an entity and a column that the checks accept is honoured exactly when a class is
configured under the exact name of the entity that they found, or when the column alone comes to
the same class. So it is when the key has that name itself. -/
theorem honours_accepted_iff (hfull : Check.full tree cwd schema s = .ok found)
    (hkey : cutAt '.' key = (part, some column)) (hcls : configured? s key = some cls)
    (haccepts : Check.Accepts found key) :
    ∃ e, schema.entity? part = some e ∧
      ∀ c ∈ e.columns, c.name = column → declaresEnum c = false →
        (Honours s cls e c ↔ (configured? s (exactKey e c)).isSome ∨
          columnEnum s e.name column = qualifiedEnum s cls) ∧
        (e.name = part → enumClass s c e.name = .ok (qualifiedEnum s cls)) := by
  obtain ⟨p, hp, rfl⟩ := mem_of_configured? hcls
  obtain ⟨e, he⟩ := Check.entity_of_accepted hfull hp haccepts hkey
  refine ⟨e, he, fun c _ hname hundeclared => ⟨?_, fun hentity => ?_⟩⟩
  · rw [honours_iff hundeclared, hname]
  · have hexact : e.name ++ "." ++ c.name = p.1 := by
      rw [hentity, hname, eq_of_cutAt hkey, List.append_assoc]
      rfl
    rw [enumClass_of_undeclared hundeclared, hexact, hcls]

/-- A column with a status. -/
def statusColumn : Column :=
  { name := "status", dataType := "enum",
    attributes := [(.text "values", .list [.text "draft", .text "published"])] }

def statusPost : Entity := { name := "Post", columns := [statusColumn] }

def statusSchema : Schema := { entities := [statusPost] }

def stateUnder (key : Text) : Settings := { enumClasses := [(key, "PostState")] }

theorem accepts_of_no_findings (h : found.findings = []) (key : Text) :
    Check.Accepts found key := by
  intro f hf
  rw [h] at hf
  cases hf

/-- The class under the name of the entity is the class of the column. -/
theorem state_under_name :
    ∃ found, Check.full plainTree plainSite.cwd statusSchema (stateUnder "Post.status") =
        .ok found ∧ Check.Accepts found "Post.status" ∧
      configured? (stateUnder "Post.status") "Post.status" = some "PostState" ∧
      statusSchema.entity? "Post" = some statusPost ∧
      enumClass (stateUnder "Post.status") statusColumn statusPost.name =
        .ok (qualifiedEnum (stateUnder "Post.status") "PostState") := by
  obtain ⟨found, hfull, hnone⟩ : ∃ found, Check.full plainTree plainSite.cwd statusSchema
      (stateUnder "Post.status") = .ok found ∧ found.findings.isEmpty = true :=
    exists_ok_of_any (by decide +kernel)
  have haccepts := accepts_of_no_findings (List.isEmpty_iff.mp hnone) "Post.status"
  have hentity : statusSchema.entity? "Post" = some statusPost := rfl
  have hkey : cutAt '.' ("Post.status" : Text) = (("Post" : Text), some ("status" : Text)) := rfl
  have hcls : configured? (stateUnder "Post.status") "Post.status" = some "PostState" := rfl
  obtain ⟨e, he, hcolumns⟩ := honours_accepted_iff hfull hkey hcls haccepts
  obtain rfl : statusPost = e := Option.some.inj (hentity.symm.trans he)
  obtain ⟨-, hexact⟩ := hcolumns statusColumn (List.mem_singleton_self _) rfl rfl
  exact ⟨found, hfull, haccepts, hcls, hentity, hexact rfl⟩

/-- The checks accept a key in the plural, and the class under it is passed over. -/
theorem state_under_plural_ignored :
    ∃ found, Check.full plainTree plainSite.cwd statusSchema (stateUnder "Posts.status") =
        .ok found ∧ Check.Accepts found "Posts.status" ∧
      configured? (stateUnder "Posts.status") "Posts.status" = some "PostState" ∧
      statusSchema.entity? "Posts" = some statusPost ∧ statusColumn ∈ statusPost.columns ∧
      statusColumn.isEnum = true ∧ declaresEnum statusColumn = false ∧
      ¬Honours (stateUnder "Posts.status") "PostState" statusPost statusColumn := by
  obtain ⟨found, hfull, hnone⟩ : ∃ found, Check.full plainTree plainSite.cwd statusSchema
      (stateUnder "Posts.status") = .ok found ∧ found.findings.isEmpty = true :=
    exists_ok_of_any (by decide +kernel)
  have haccepts := accepts_of_no_findings (List.isEmpty_iff.mp hnone) "Posts.status"
  have hentity : statusSchema.entity? "Posts" = some statusPost := by
    have hform : entityForm "Posts" = "Post" := by decide +kernel
    unfold Schema.entity?
    rw [hform]
    rfl
  refine ⟨found, hfull, haccepts, rfl, hentity, List.mem_singleton_self _, rfl, rfl, ?_⟩
  rw [honours_iff rfl]
  decide +kernel

end ClassNames

end ApiScaffold
