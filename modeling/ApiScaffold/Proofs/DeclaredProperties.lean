import ApiScaffold.Proofs.DeclaredRelationships
import ApiScaffold.Proofs.GeneratedNames
import ApiScaffold.Proofs.ImportedClasses

/-!
# Properties of data objects

The properties of a data object come from two places, the columns of a request body and the related
names, and the latter give way to columns and to one another. The main theorem lists the names of
all properties in order, as the file declares them. They are different, because an entity is only
made when its columns have different names, and because a related name is left out when its property
is taken. Where all names are identifiers, a reader that knows nothing but dollar signs finds them
in the text of the file. Names of other kinds are declared all the same, but can be mistaken there.
-/
namespace ApiScaffold

open Text

/-! ## Grouped relationships -/

namespace Relationships

variable {rs : Relationships} {kind : RelationshipKind}

/-- The names under one kind. -/
def under (kind : RelationshipKind) (rs : Relationships) : List Text :=
  (rs.filter (·.1 = kind)).flatMap (·.2)

theorem pairs_group : rs.group.pairs =
    RelationshipKind.all.flatMap fun kind => (rs.under kind).map fun name => (kind, name) := by
  unfold group pairs under
  rw [List.filterMap_eq_flatMap_toList, List.flatMap_assoc]
  refine List.flatMap_congr fun kind _ => ?_
  split
  · rename_i hnone
    simp [hnone]
  · simp

theorem filter_pairs_group : rs.group.pairs.filter (·.1 = kind) =
    (rs.under kind).map fun name => (kind, name) := by
  have hkind : ∀ (other : RelationshipKind) (names : List Text),
      (names.map fun name => (other, name)).filter (·.1 = kind) =
        if other = kind then names.map fun name => (other, name) else [] := by
    intro other names
    split_ifs with hother <;> simp [hother]
  rw [pairs_group, List.filter_flatMap]
  simp only [hkind]
  cases kind <;> simp [RelationshipKind.all]

theorem exists_group_of_check {v : Value} (h : check v = .ok rs) :
    ∃ declared : Relationships, rs = declared.group := by
  unfold check at h
  split_ifs at h
  · split at h
    · obtain ⟨declared, -, rfl⟩ := Except.map_eq_ok_iff.mp h
      exact ⟨declared, rfl⟩
    · cases h
  · cases h
    exact ⟨[], rfl⟩

end Relationships

/-! ## Entities that are made -/

namespace Entity

variable {e : Entity}

/-- An entity that is made, from a mapping of its fields or from parts that were checked. -/
def Made (e : Entity) : Prop :=
  (∃ v, check v = .ok e) ∨ ∃ (parts : Entity) (declared : Draft.Declarations),
    parts.make declared = .ok e

/-- The related names of one kind. -/
def relatedBy (e : Entity) (kind : RelationshipKind) : List Text :=
  (e.related.filter (·.1 = kind)).map (·.2)

theorem Made.columnNames_nodup (h : e.Made) : e.columnNames.Nodup := by
  rcases h with ⟨v, h⟩ | ⟨parts, declared, h⟩
  · obtain ⟨found, -, h⟩ := Except.bind_eq_ok_iff.mp h
    obtain ⟨rfl, hnames⟩ := Draft.distinctColumns_eq_ok_iff.mp h
    exact hnames
  · obtain ⟨-, hnames, rs, -, rfl⟩ := Draft.make_eq_ok_iff.mp h
    exact hnames

/-- The relationships of an entity are read from the field of that name, if there is one. -/
theorem relationships_of_check {data : Mapping} (h : check (.mapping data) = .ok e) :
    match data.getText? "relationships" with
    | some v => Relationships.check v = .ok e.relationships
    | none => e.relationships = [] := by
  obtain ⟨found, hrecord, h⟩ := Except.bind_eq_ok_iff.mp h
  obtain ⟨rfl, -⟩ := Draft.distinctColumns_eq_ok_iff.mp h
  obtain ⟨⟨e', _⟩, hboth, rfl⟩ := Except.map_eq_ok_iff.mp hrecord
  obtain ⟨hread, -⟩ := Checked.both_eq_ok_iff.mp hboth
  obtain ⟨⟨name, columns, rs, timestamps, softDeletes⟩, hfields, rfl⟩ :=
    Except.map_eq_ok_iff.mp hread
  obtain ⟨-, hfields⟩ := Checked.both_eq_ok_iff.mp hfields
  obtain ⟨-, hfields⟩ := Checked.both_eq_ok_iff.mp hfields
  obtain ⟨hrs, -⟩ := Checked.both_eq_ok_iff.mp hfields
  unfold Check.field at hrs
  rw [Checked.below_eq_ok_iff] at hrs
  cases hvalue : Mapping.getText? "relationships" data with
  | some v =>
    rw [hvalue] at hrs
    exact hrs
  | none =>
    rw [hvalue] at hrs
    exact (Except.ok.inj hrs).symm

theorem exists_group_of_check {v : Value} (h : check v = .ok e) :
    ∃ declared : Relationships, e.relationships = declared.group := by
  cases v with
  | mapping data =>
    have hrs := relationships_of_check h
    split at hrs
    · exact Relationships.exists_group_of_check hrs
    · exact ⟨[], hrs⟩
  | _ => cases h

theorem Made.exists_group (h : e.Made) :
    ∃ declared : Relationships, e.relationships = declared.group := by
  rcases h with ⟨v, h⟩ | ⟨parts, declared, h⟩
  · exact exists_group_of_check h
  · obtain ⟨-, -, rs, -, rfl⟩ := Draft.make_eq_ok_iff.mp h
    exact ⟨rs, rfl⟩

/-- The related names come in the order of their kinds. -/
theorem Made.related_eq (h : e.Made) : e.related =
    RelationshipKind.all.flatMap fun kind => (e.relatedBy kind).map fun name => (kind, name) := by
  obtain ⟨declared, hgroup⟩ := h.exists_group
  have hkind : ∀ kind, e.relatedBy kind = declared.under kind := by
    intro kind
    unfold relatedBy related
    rw [hgroup, Relationships.filter_pairs_group, List.map_map]
    exact List.map_id _
  simp only [hkind]
  unfold related
  rw [hgroup, Relationships.pairs_group]

end Entity

namespace DataFile

variable {s : Settings} {e : Entity} {ps : List Property}

/-! ## Names of properties -/

/-- The names of the properties that the related names would have, in the order of the kinds. -/
def relatedNames (e : Entity) : List Text :=
  RelationshipKind.all.flatMap fun kind =>
    (e.relatedBy kind).map fun related => ClassNames.relationshipProperty related kind

/-- The names of the columns that a request body has and then, each once, those of the related
names that are neither blank nor the name of a column. -/
def propertyNames (e : Entity) : List Text :=
  (e.columns.filter Column.isBodyColumn).map (·.name) ++
    distinct ((relatedNames e).filter fun name => name ≠ [] ∧ ¬e.columnNames.contains name)

theorem relatedProperties_names (h : e.Made) (s : Settings) :
    (relatedProperties s e).map (·.name) =
      distinct ((relatedNames e).filter fun name =>
        name ≠ [] ∧ ¬e.columnNames.contains name) := by
  have hnames : (e.related.map (relatedProperty s)).map (·.name) = relatedNames e := by
    unfold relatedNames
    rw [h.related_eq, List.map_map, List.map_flatMap]
    simp only [List.map_map]
    rfl
  unfold relatedProperties
  rw [fresh_names, hnames]
  refine congrArg distinct (List.filter_congr fun name _ => ?_)
  simp only [List.contains_iff_mem]

theorem columnProperties_names (h : columnProperties s e = .ok ps) :
    ps.map (·.name) = (e.columns.filter Column.isBodyColumn).map (·.name) := by
  have hnames : List.Forall₂ (fun c p => p.name = c.name)
      (e.columns.filter Column.isBodyColumn) ps :=
    (Except.mapM_eq_ok_iff.mp h).imp fun _ _ hp => columnProperty_name hp
  rw [← List.forall₂_eq_eq_eq, List.forall₂_map_left_iff, List.forall₂_map_right_iff]
  exact hnames.flip

theorem properties_names (h : e.Made) (hps : properties s e = .ok ps) :
    ps.map (·.name) = propertyNames e := by
  obtain ⟨columns, hcolumns, rfl⟩ := properties_eq_ok_iff.mp hps
  rw [List.map_append, columnProperties_names hcolumns, relatedProperties_names h]
  rfl

theorem nodup_propertyNames (h : e.Made) : (propertyNames e).Nodup := by
  have hcolumns : ((e.columns.filter Column.isBodyColumn).map (·.name)).Sublist e.columnNames :=
    List.filter_sublist.map _
  refine List.nodup_append'.mpr ⟨h.columnNames_nodup.sublist hcolumns, nodup_distinct _, ?_⟩
  intro name hcolumn hrelated
  have hfree := (List.mem_filter.mp (mem_distinct.mp hrelated)).2
  exact (of_decide_eq_true hfree).2 (List.contains_iff_mem.mpr (hcolumns.subset hcolumn))

/-! ## What the file declares -/

def declaration (type name : Text) : Text := "public " ++ type ++ " $" ++ name

/-- The text ends in a declaration of a property with the given type and name. -/
def Declares (type name text : Text) : Prop := declaration type name <:+ text

/-- The type that the property of a column is declared with, the mark for null apart, from its
class, if it is an enum. -/
def declaredType (c : Column) (cls : Option Text) : Text :=
  match cls with
  | some cls => afterLast '\\' cls
  | none =>
    if c.isDate then TypeMapping.dateWrapper else (TypeMapping.of c.dataType c.name none).target

theorem declaration_mark (mark type name : Text) :
    declaration (mark ++ type) name = "public " ++ mark ++ type ++ " $" ++ name := by
  unfold declaration
  simp only [List.append_assoc]

theorem propertyOf_declares (c : Column) (cls : Option Text) :
    Declares ((if c.nullable then ("?" : Text) else []) ++ declaredType c cls) c.name
      (propertyOf c cls).text := by
  unfold Declares declaredType propertyOf
  rw [declaration_mark]
  dsimp only
  cases cls with
  | some cls => exact propertyLines_suffix (List.suffix_refl _)
  | none =>
    dsimp only
    by_cases hdate : c.isDate = true
    · rw [if_pos hdate, if_pos hdate]
      exact propertyLines_suffix (List.suffix_refl _)
    · simp only [if_neg hdate]
      exact List.suffix_refl _

theorem relatedProperty_declares (s : Settings) (r : RelationshipKind × Text) :
    ∃ type, Declares type (relatedProperty s r).name (relatedProperty s r).text := by
  unfold Declares relatedProperty declaration
  dsimp only
  split_ifs
  · exact ⟨"array", propertyLines_suffix (List.suffix_refl _)⟩
  · exact ⟨ClassNames.dataClass r.2, List.suffix_refl _⟩

theorem exists_declares (h : properties s e = .ok ps) {p : Property} (hp : p ∈ ps) :
    ∃ type, Declares type p.name p.text := by
  obtain ⟨columns, hcolumns, rfl⟩ := properties_eq_ok_iff.mp h
  rcases List.mem_append.mp hp with hp | hp
  · obtain ⟨c, -, -, heq⟩ := (mem_columnProperties_iff hcolumns).mp hp
    rw [columnProperty_name heq]
    obtain ⟨own, -, rfl⟩ := Except.map_eq_ok_iff.mp heq
    exact ⟨_, propertyOf_declares c own⟩
  · obtain ⟨r, -, rfl⟩ := mem_relatedProperties.mp hp
    exact relatedProperty_declares s r

/-- The text has properties of the given names, one below the other and each with a comma. -/
def Lists (names : List Text) (block : Text) : Prop :=
  ∃ texts, block = join ("\n" ++ spaces 8) (texts.map (· ++ ",")) ∧
    List.Forall₂ (fun name text => ∃ type, Declares type name text) names texts

theorem propertyBlock_eq (texts : List Text) :
    propertyBlock texts = join ("\n" ++ spaces 8) (texts.map (· ++ ",")) := by
  unfold propertyBlock
  cases texts with
  | nil => rfl
  | cons first rest =>
    rw [if_neg (List.cons_ne_nil first rest)]
    induction rest generalizing first with
    | nil => rfl
    | cons second rest ih =>
      have hsecond := ih second
      rw [List.map_cons] at hsecond
      rw [join_cons_cons, List.map_cons, List.map_cons, join_cons_cons, ← hsecond]
      simp only [List.append_assoc]
      rfl

theorem lists_propertyBlock (h : properties s e = .ok ps) :
    Lists (ps.map (·.name)) (propertyBlock (ps.map (·.text))) := by
  refine ⟨_, propertyBlock_eq _, ?_⟩
  rw [List.forall₂_map_left_iff, List.forall₂_map_right_iff, List.forall₂_same]
  exact fun p hp => exists_declares h hp

/-! ## Properties in a text -/

/-- What stands behind the dollar signs of a text, as far as it could be a name. -/
def dollarNames : Text → List Text
  | [] => []
  | c :: rest =>
    if c = '$' then rest.takeWhile isIdentifierChar :: dollarNames rest else dollarNames rest

theorem dollarNames_append {front : Text} (h : '$' ∉ front) (rest : Text) :
    dollarNames (front ++ rest) = dollarNames rest := by
  induction front with
  | nil => rfl
  | cons c cs ih =>
    rw [List.mem_cons, not_or] at h
    rw [List.cons_append, dollarNames, if_neg (Ne.symm h.1), ih h.2]

/-- A variable is read up to the comma behind it. -/
theorem dollarNames_variable {name : Text} (h : isIdentifier name = true) (rest : Text) :
    dollarNames ('$' :: (name ++ ',' :: rest)) = name :: dollarNames rest := by
  have hchars := (isIdentifier_iff.mp h).2
  have hdollar : '$' ∉ name ++ [','] := by
    rw [List.mem_append, List.mem_singleton, not_or]
    exact ⟨fun hmem => absurd (hchars _ hmem) (by decide), by decide⟩
  have hrest : name ++ ',' :: rest = (name ++ [',']) ++ rest := by simp
  have hstop : ∀ c ∈ (',' :: rest).head?, isIdentifierChar c = false := by
    rintro c ⟨⟩
    rfl
  rw [dollarNames, if_pos rfl, PhpLiteral.takeWhile_stop hchars hstop, hrest,
    dollarNames_append hdollar]

/-- A text with its only dollar sign in front of the name that it ends in. -/
def Marks (name text : Text) : Prop :=
  isIdentifier name = true ∧ ∃ front, '$' ∉ front ∧ text = front ++ '$' :: name

theorem dollarNames_join {separator : Text} (hseparator : '$' ∉ separator) {names texts : List Text}
    (h : List.Forall₂ Marks names texts) :
    dollarNames (join separator (texts.map (· ++ ","))) = names := by
  induction h with
  | nil => rfl
  | @cons name text names texts hfirst hrest ih =>
    obtain ⟨hname, front, hfront, rfl⟩ := hfirst
    have hread : ∀ rest, dollarNames (front ++ '$' :: name ++ "," ++ rest) =
        name :: dollarNames rest := by
      intro rest
      have hsplit : front ++ '$' :: name ++ "," ++ rest =
          front ++ '$' :: (name ++ ',' :: rest) := by simp
      rw [hsplit, dollarNames_append hfront, dollarNames_variable hname]
    cases hrest with
    | nil => simpa [dollarNames] using hread []
    | cons _ _ =>
      rw [List.map_cons] at ih ⊢
      rw [List.map_cons, join_cons_cons, List.append_assoc (front ++ '$' :: name ++ (",": Text)),
        hread, dollarNames_append hseparator, ih]

/-- No class of an enum of the entity has a dollar sign in it. -/
def DollarFree (s : Settings) (e : Entity) : Prop :=
  ∀ c ∈ e.columns, c.isBodyColumn = true →
    ∀ cls, ClassNames.enumClass? s c e.name = .ok (some cls) → '$' ∉ cls

theorem dollar_notMem_target (dataType name : Text) :
    '$' ∉ (TypeMapping.of dataType name none).target := by
  unfold TypeMapping.of
  split_ifs
  · decide
  · split <;> decide

theorem dollar_notMem_dataClass (name : Text) : '$' ∉ ClassNames.dataClass name :=
  not_mem_studly_append (by decide) _ (by decide)

theorem marks_declaration {type name : Text} (hname : isIdentifier name = true)
    (htype : '$' ∉ type) : Marks name (declaration type name) := by
  refine ⟨hname, "public " ++ type ++ " ", ?_, ?_⟩
  · exact List.not_mem_append (List.not_mem_append (by decide) htype) (by decide)
  · unfold declaration
    simp only [List.append_assoc]
    rfl

/-- A line without a dollar sign can stand in front. -/
theorem Marks.propertyLines {name text first : Text} (h : Marks name text) (hfirst : '$' ∉ first) :
    Marks name (DataFile.propertyLines [first, text]) := by
  obtain ⟨hname, front, hfront, rfl⟩ := h
  have hfree : '$' ∉ first ++ (("\n" : Text) ++ spaces 8) :=
    List.not_mem_append hfirst (by decide)
  exact ⟨hname, first ++ (("\n" : Text) ++ spaces 8) ++ front, List.not_mem_append hfree hfront,
    (List.append_assoc (first ++ (("\n" : Text) ++ spaces 8)) front _).symm⟩

theorem dollar_notMem_mark (c : Column) {type : Text} (h : '$' ∉ type) :
    '$' ∉ (if c.nullable then ("?" : Text) else []) ++ type := by
  refine List.not_mem_append ?_ h
  split_ifs <;> decide

theorem propertyOf_marks {c : Column} {cls : Option Text} (hname : isIdentifier c.name = true)
    (hcls : ∀ own, cls = some own → '$' ∉ own) : Marks c.name (propertyOf c cls).text := by
  have hdeclaration : ∀ type : Text, '$' ∉ type →
      Marks c.name ("public " ++ (if c.nullable then ("?" : Text) else []) ++ type ++ " $" ++
        c.name) := by
    intro type htype
    rw [← declaration_mark]
    exact marks_declaration hname (dollar_notMem_mark c htype)
  unfold propertyOf
  cases cls with
  | some own =>
    have hshort : '$' ∉ afterLast '\\' own := by
      intro hmem
      have hfront := (List.takeWhile_prefix _).subset (List.mem_reverse.mp hmem)
      exact hcls own rfl (List.mem_reverse.mp hfront)
    apply (hdeclaration _ hshort).propertyLines
    exact List.not_mem_append (List.not_mem_append (by decide) hshort) (by decide)
  | none =>
    dsimp only
    by_cases hdate : c.isDate = true
    · rw [if_pos hdate]
      exact (hdeclaration TypeMapping.dateWrapper (by decide)).propertyLines (by decide)
    · rw [if_neg hdate]
      exact hdeclaration _ (dollar_notMem_target _ _)

theorem relatedProperty_marks (s : Settings) {r : RelationshipKind × Text}
    (hname : isIdentifier (relatedProperty s r).name = true) :
    Marks (relatedProperty s r).name (relatedProperty s r).text := by
  have hcls := dollar_notMem_dataClass r.2
  have hmarks : ∀ type : Text, '$' ∉ type → Marks (relatedProperty s r).name
      (declaration type (relatedProperty s r).name) := fun type => marks_declaration hname
  unfold relatedProperty at hmarks ⊢
  dsimp only at hmarks ⊢
  split_ifs
  · apply (hmarks "array" (by decide)).propertyLines
    exact List.not_mem_append (List.not_mem_append (by decide) hcls) (by decide)
  · exact hmarks _ hcls

theorem property_marks (h : properties s e = .ok ps) (hclasses : DollarFree s e) {p : Property}
    (hp : p ∈ ps) (hname : isIdentifier p.name = true) : Marks p.name p.text := by
  obtain ⟨columns, hcolumns, rfl⟩ := properties_eq_ok_iff.mp h
  rcases List.mem_append.mp hp with hp | hp
  · obtain ⟨c, hc, hbody, heq⟩ := (mem_columnProperties_iff hcolumns).mp hp
    rw [columnProperty_name heq] at hname ⊢
    obtain ⟨own, hown, rfl⟩ := Except.map_eq_ok_iff.mp heq
    exact propertyOf_marks hname fun cls hcls => hclasses c hc hbody cls (hcls ▸ hown)
  · obtain ⟨r, -, rfl⟩ := mem_relatedProperties.mp hp
    exact relatedProperty_marks s hname

theorem dollarNames_propertyBlock (h : properties s e = .ok ps) (hclasses : DollarFree s e)
    (hnames : ∀ name ∈ ps.map (·.name), isIdentifier name = true) :
    dollarNames (propertyBlock (ps.map (·.text))) = ps.map (·.name) := by
  rw [propertyBlock_eq]
  apply dollarNames_join (by decide)
  rw [List.forall₂_map_left_iff, List.forall₂_map_right_iff, List.forall₂_same]
  exact fun p hp => property_marks h hclasses hp (hnames _ (List.mem_map_of_mem hp))

/-! ## The file -/

theorem classSlots_properties (s : Settings) (e : Entity) (ps : List Property) :
    (classSlots s e ps).value? "properties" = some (propertyBlock (ps.map (·.text))) :=
  rfl

/-- The file of a data object is there unless a class declared for an enum cannot be written. What
its stub has for the properties, which stands in the file where the stub asks for it, declares one
for each column that a request body has, in order, and then one for each related name, in the order
of the kinds, that is neither blank nor the name of a column, each name once. No two have the same
name. Where the names are identifiers, they are what is read behind the dollar signs. -/
theorem properties_named (h : e.Made) (s : Settings) (stub : Text) :
    ((∃ a, artifact s e stub = .ok a) ↔
        ∀ c ∈ e.columns, c.isBodyColumn = true → ¬c.HasLongClass) ∧
      (propertyNames e).Nodup ∧
      ∀ a, artifact s e stub = .ok a → ∃ slots block, a.content = Stub.render stub slots ∧
        slots.value? "properties" = some block ∧
        (Stub.HasToken "properties" stub → block <:+: a.content) ∧
        Lists (propertyNames e) block ∧
        (DollarFree s e → (∀ name ∈ propertyNames e, isIdentifier name = true) →
          dollarNames block = propertyNames e) := by
  refine ⟨?_, nodup_propertyNames h, fun a ha => ?_⟩
  · rw [← exists_properties_iff (s := s)]
    exact Except.exists_map_eq_ok
  · obtain ⟨ps, hps, rfl⟩ := Except.map_eq_ok_iff.mp ha
    have hslot := classSlots_properties s e ps
    have hlists := lists_propertyBlock hps
    have hread := dollarNames_propertyBlock hps
    rw [properties_names h hps] at hlists hread
    exact ⟨classSlots s e ps, _, fileOf_content s e stub ps, hslot,
      fun htoken => Stub.infix_render htoken hslot, hlists, hread⟩

theorem eventfulPost_properties : eventfulPost.Made ∧
    ∃ a block, artifact {} eventfulPost Stub.dataClass = .ok a ∧ block <:+: a.content ∧
      Lists [("status" : Text), "day", "user"] block ∧
      dollarNames block = [("status" : Text), "day", "user"] := by
  have hmade : eventfulPost.Made := by
    have hrs : [(RelationshipKind.belongsTo, Relationships.Targets.joined "Status, User"),
        (.hasOne, .joined "user")].mapM Relationships.named = .ok eventfulPost.relationships := rfl
    exact Or.inr ⟨eventfulPost, _, Draft.make_of_columnNames (by decide) (by decide) hrs⟩
  have hnames : propertyNames eventfulPost = [("status" : Text), "day", "user"] := by
    decide +kernel
  have hfree : DollarFree {} eventfulPost := by
    unfold DollarFree eventfulPost
    simp only [List.forall_mem_cons]
    refine ⟨fun _ cls hcls => ?_, fun _ cls hcls => ?_, fun _ cls hcls => ?_,
      fun _ cls hcls => ?_, fun _ hnone => absurd hnone List.not_mem_nil⟩
    · obtain rfl : "App\\Enums\\Status" = cls := Option.some.inj (Except.ok.inj hcls)
      decide
    all_goals cases hcls
  obtain ⟨-, -, hfile⟩ := properties_named hmade {} Stub.dataClass
  obtain ⟨a, ha⟩ : ∃ a, artifact {} eventfulPost Stub.dataClass = .ok a := ⟨_, rfl⟩
  obtain ⟨slots, block, -, -, hinfix, hlists, hread⟩ := hfile a ha
  rw [hnames] at hlists hread
  exact ⟨hmade, a, block, ha, hinfix ⟨Stub.slot "properties", by decide +kernel⟩, hlists,
    hread hfree (by decide)⟩

end DataFile

end ApiScaffold
