import ApiScaffold.Proofs.AttributeReading
import ApiScaffold.Proofs.DeclaredProperties
import ApiScaffold.Proofs.RenderingFailures

/-!
# Columns that are documented

Which columns the methods of a controller document is decided in one place, and which of them the
data object has properties for in another, and the same holds for what their types are called. The
main theorem is that the two agree, unless foreign keys are documented as well: the attributes of
body parameters that are read in what a method is filled in with are one for each of the first
properties of the data object, in order, and one mapping of the column's type has the type of the
property and what the attribute says. Only the property of an enum column whose class is empty has a
type of its own, since the mapping is then that of a string.
-/
namespace ApiScaffold

open Text PhpLiteral

/-! ## Attributes of body parameters -/

/-- The constant that is passed under a name, or the first one that is passed without one. -/
def PhpLiteral.Attribute.value? (a : Attribute) (name : Option Text) : Option Constant :=
  (a.arguments.find? (·.name = name)).map (·.value)

namespace ControllerFile

variable {s : Settings} {now : Moment} {e : Entity} {c : Column} {cls : Option Text}
  {verb model line : Text} {lines : List Text} {a : Attribute} {attributes : List Attribute}

def isBodyAttribute (a : Attribute) : Bool := a.name = ("BodyParameter" : Text)

/-- The attributes of body parameters that are read in a text, in order. -/
def bodyAttributes (t : Text) : List Attribute :=
  (Reader.wholeAttribute.many t).filter isBodyAttribute

/-- The pieces of the attribute that documents the record of a route. -/
def pathPieces (model purpose : Text) : List Text :=
  [quote (Words.camel model),
    named "description" (quote ("The " ++ Words.camel model ++ " " ++ purpose ++ ".")),
    named "type" (quote "integer"), named "example" "1"]

theorem pathParameter_eq (model purpose : Text) : pathParameter model purpose =
    "#[" ++ "PathParameter" ++ "(" ++ join ", " (pathPieces model purpose) ++ ")]" := by
  unfold pathParameter pathPieces named
  simp only [join, List.append_assoc]
  rfl

theorem pathParameter_yields (model purpose : Text) : ∃ a,
    Reader.Yields Reader.wholeAttribute (pathParameter model purpose) a ∧
      isBodyAttribute a = false := by
  obtain ⟨arguments, hspell⟩ : ∃ arguments, List.Forall₂ (Reader.Spells ')' Reader.argument)
      (pathPieces model purpose) arguments :=
    ⟨_, .cons (string_argument_spells _) (.cons ((string_denotes _).spells_named rfl)
      (.cons ((string_denotes _).spells_named rfl)
        (.cons ((whole_denotes rfl).spells_named rfl) .nil)))⟩
  have hsome : pathPieces model purpose ≠ [] := List.cons_ne_nil _ _
  have hname : isIdentifier "PathParameter" = true := rfl
  refine ⟨⟨"PathParameter", arguments⟩, ⟨⟨'#', _, pathParameter_eq model purpose, rfl⟩,
    fun rest => ?_⟩, rfl⟩
  rw [pathParameter_eq]
  exact readAttribute_append hname hspell hsome rest

/-- The lines of a block are read one by one. -/
theorem many_attributeBlock
    (h : List.Forall₂ (Reader.Yields Reader.wholeAttribute) lines attributes) :
    Reader.wholeAttribute.many (attributeBlock lines) = attributes := by
  have hlead : ∀ c ∈ spaces 4, isSpace c = true :=
    (List.forall_mem_cons.mp (isSpace_lineFeed_spaces 4)).2
  unfold attributeBlock
  split_ifs with hnone
  · subst hnone
    cases h
    exact Reader.many_blank rfl (List.forall_mem_nil _)
  · rw [List.append_assoc]
    exact Reader.many_join rfl (isSpace_lineFeed_spaces 4) (isSpace_lineFeed_spaces 0) h hlead

/-- The attribute documents a column with what a mapping of its type says. -/
structure Documents (c : Column) (mapping : TypeMapping) (a : Attribute) : Prop where
  name : a.value? none = some (.string c.name)
  type : a.value? (some "type") = some (.string mapping.docType)
  format : a.value? (some "format") = mapping.docFormat.map Constant.string
  required : a.value? (some "required") = some (.truth !c.nullable)

theorem bodyArguments_document (c : Column) (cls : Option Text) (value : Constant) :
    Documents c (TypeMapping.of c.dataType c.name cls)
      ⟨"BodyParameter", bodyArguments c cls value⟩ := by
  unfold bodyArguments
  constructor
  · rfl
  · rfl
  · unfold Attribute.value?
    dsimp only
    cases (TypeMapping.of c.dataType c.name cls).docFormat <;> rfl
  · unfold Attribute.value?
    dsimp only
    cases (TypeMapping.of c.dataType c.name cls).docFormat <;> rfl

/-- The line for a column is read as an attribute that documents the column. -/
theorem exists_documents (h : bodyParameter s now e c = .ok line) : ∃ cls a,
    ClassNames.enumClass? s c e.name = .ok cls ∧ Reader.Yields Reader.wholeAttribute line a ∧
      isBodyAttribute a = true ∧
      Documents c (TypeMapping.of c.dataType c.name cls) a := by
  obtain ⟨cls, hcls, h⟩ := Except.bind_eq_ok_iff.mp h
  obtain ⟨literal, hliteral, rfl⟩ := Except.map_eq_ok_iff.mp h
  obtain ⟨value, hvalue, -⟩ := Example.exampleValue_denotes hliteral
  exact ⟨cls, _, hcls, ⟨⟨'#', _, bodyText_eq c cls literal, rfl⟩, bodyText_reads_back hvalue⟩, rfl,
    bodyArguments_document c cls value⟩

theorem exists_bodyParameter_iff : (∃ line, bodyParameter s now e c = .ok line) ↔
    ¬c.HasLongClass ∧
      ∃ literal, Example.exampleValue c.name c.dataType c.values? now = .ok literal := by
  unfold bodyParameter
  simp only [Except.exists_bind_eq_ok, Except.exists_map_eq_ok]
  rw [← @ClassNames.exists_enumClass?_iff s c e.name, ← exists_and_right]

/-- Without foreign keys the columns of a request body are documented. -/
theorem documented_eq_bodyColumns (hoff : s.documentForeignKeys = false) :
    documented s e = e.columns.filter Column.isBodyColumn := by
  unfold documented
  refine List.filter_congr fun c _ => ?_
  unfold documents Column.isBodyColumn
  rw [hoff, Bool.or_false]

/-! ## Types of properties -/

/-- The property of a column in a request body has the type of the mapping that it is documented
by, unless it is an enum whose class is empty. -/
theorem declaredType_eq_target (hbody : c.isBodyColumn = true)
    (hcls : ClassNames.enumClass? s c e.name = .ok cls) (hsome : cls ≠ some []) :
    DataFile.declaredType c cls = (TypeMapping.of c.dataType c.name cls).target := by
  have hforeign : ¬isForeignKeyName c.name = true := by
    unfold Column.isBodyColumn Column.isForeignKey at hbody
    simp_all
  unfold DataFile.declaredType TypeMapping.of
  rw [if_neg hforeign, if_neg hforeign]
  rcases ClassNames.enumClass?_eq_ok_iff.mp hcls with ⟨henum, own, -, rfl⟩ | ⟨henum, rfl⟩
  · have hfamily : TypeFamily.of? c.dataType = some .enumeration := eq_of_beq henum
    have hown : own ≠ [] := fun hnil => hsome (congrArg some hnil)
    rw [hfamily]
    dsimp only
    rw [if_neg hown]
  · dsimp only
    by_cases hdate : c.isDate = true
    · have hfamily : TypeFamily.of? c.dataType = some .date := eq_of_beq hdate
      rw [if_pos hdate, hfamily]
    · rw [if_neg hdate]

end ControllerFile

namespace DataFile

theorem not_declares_of_mark {type name text : Text} (h : Declares ("?" ++ type) name text) :
    ¬Declares type name text := by
  intro hplain
  have hmarked : declaration ("?" ++ type) name =
      'p' :: ("ublic ?" ++ type ++ " $" ++ name) := rfl
  have hfront : ("public " : Text).length = ("ublic ?" : Text).length := by decide
  have hlength : (declaration type name).length =
      ("ublic ?" ++ type ++ " $" ++ name : Text).length := by
    unfold declaration
    rw [List.length_append, List.length_append, List.length_append, hfront, ← List.length_append,
      ← List.length_append, ← List.length_append]
  have hsuffix : declaration type name <:+ declaration ("?" ++ type) name :=
    List.suffix_of_suffix_length_le hplain h (by rw [hmarked, List.length_cons, hlength]; omega)
  rw [hmarked, List.suffix_cons_iff] at hsuffix
  rcases hsuffix with heq | hsuffix
  · have hlonger := congrArg List.length heq
    rw [List.length_cons] at hlonger
    omega
  · have heq := hsuffix.eq_of_length hlength
    have hhead : 'p' = 'u' := (List.cons.inj heq).1
    exact absurd hhead (by decide)

/-- A property is declared with one mark, which says whether its column may be null. -/
theorem declares_iff {c : Column} {cls : Option Text} {nullable : Bool} :
    Declares ((if nullable then ("?" : Text) else []) ++ declaredType c cls) c.name
        (propertyOf c cls).text ↔
      nullable = c.nullable := by
  have hdeclares := propertyOf_declares c cls
  constructor
  · intro h
    cases hnullable : c.nullable with
    | true =>
      rw [hnullable] at hdeclares
      cases nullable with
      | true => rfl
      | false => exact absurd h (not_declares_of_mark hdeclares)
    | false =>
      rw [hnullable] at hdeclares
      cases nullable with
      | true => exact absurd hdeclares (not_declares_of_mark h)
      | false => rfl
  · rintro rfl
    exact hdeclares

end DataFile

namespace ControllerFile

variable {s : Settings} {now : Moment} {e : Entity} {verb stub dataStub : Text} {c : Controller}

theorem methodSlots_attributes (hbody : hasBody verb = true) (lines : List Text) :
    (methodSlots c verb lines).value? (verb ++ "Attributes") = some (attributeBlock lines) := by
  rcases hasBody_iff.mp hbody with rfl | rfl <;> rfl

/-- A column, the attribute that documents it and the text that declares its property. -/
structure Shown where
  column : Column
  documented : Attribute
  declared : Text

/-- The attribute and the property of a column agree on one mapping of its type: the attribute has
the type and the format of the mapping, and the property is declared with the type of the mapping,
and with the mark for null unless the attribute says that it is required. The class of an enum must
not be empty for this. -/
def Shown.Agree (s : Settings) (e : Entity) (p : Shown) : Prop :=
  ∃ cls, ClassNames.enumClass? s p.column e.name = .ok cls ∧
    Documents p.column (TypeMapping.of p.column.dataType p.column.name cls) p.documented ∧
    (cls ≠ some [] → ∀ nullable : Bool,
      DataFile.Declares ((if nullable then ("?" : Text) else []) ++
          (TypeMapping.of p.column.dataType p.column.name cls).target) p.column.name p.declared ↔
        p.documented.value? (some "required") = some (.truth !nullable))

/-- The line that documents a column and the property of the column agree. -/
theorem exists_shown {column : Column} {line : Text} (hbody : column.isBodyColumn = true)
    (h : bodyParameter s now e column = .ok line) : ∃ p : Shown, p.column = column ∧
      Reader.Yields Reader.wholeAttribute line p.documented ∧
      isBodyAttribute p.documented = true ∧
      (DataFile.columnProperty s e column).map (·.text) = .ok p.declared ∧ p.Agree s e := by
  obtain ⟨cls, a, hcls, hyields, hname, hdocuments⟩ := exists_documents h
  refine ⟨⟨column, a, (DataFile.propertyOf column cls).text⟩, rfl, hyields, hname, ?_, cls, hcls,
    hdocuments, fun hsome nullable => ?_⟩
  · unfold DataFile.columnProperty
    rw [hcls]
    rfl
  · rw [← declaredType_eq_target hbody hcls hsome, DataFile.declares_iff, hdocuments.required]
    cases nullable <;> cases column.nullable <;> simp

/-- The lines that document columns and the properties of the columns agree one by one. -/
theorem exists_allShown {cs : List Column} {lines : List Text}
    (hbody : ∀ column ∈ cs, column.isBodyColumn = true)
    (h : cs.mapM (bodyParameter s now e) = .ok lines) :
    ∃ (shown : List Shown) (ps : List DataFile.Property), shown.map (·.column) = cs ∧
      List.Forall₂ (Reader.Yields Reader.wholeAttribute) lines (shown.map (·.documented)) ∧
      cs.mapM (DataFile.columnProperty s e) = .ok ps ∧
      ps.map (·.text) = shown.map (·.declared) ∧
      ∀ p ∈ shown, isBodyAttribute p.documented = true ∧ p.Agree s e := by
  induction Except.mapM_eq_ok_iff.mp h with
  | nil => exact ⟨[], [], rfl, .nil, rfl, rfl, List.forall_mem_nil _⟩
  | @cons column line cs lines hline hrest ih =>
    obtain ⟨hfirst, hothers⟩ := List.forall_mem_cons.mp hbody
    obtain ⟨shown, ps, hcolumns, hyields, hps, htexts, hall⟩ :=
      ih hothers (Except.mapM_eq_ok_iff.mpr hrest)
    obtain ⟨p, hcolumn, hread, hname, hproperty, hagree⟩ := exists_shown hfirst hline
    obtain ⟨property, hmade, htext⟩ := Except.map_eq_ok_iff.mp hproperty
    refine ⟨p :: shown, property :: ps, ?_, .cons hread hyields, ?_, ?_,
      List.forall_mem_cons.mpr ⟨⟨hname, hagree⟩, hall⟩⟩
    · rw [List.map_cons, hcolumn, hcolumns]
    · exact Except.mapM_cons_eq_ok_iff.mpr ⟨property, ps, hmade, hps, rfl⟩
    · rw [List.map_cons, List.map_cons, htext, htexts]

/-- What a method with a body is filled in with reads as one attribute of a body parameter for each
column that is shown, and maybe one of the record of its route before them. -/
theorem bodyAttributes_attributeBlock (verb model : Text) {body : List Text} {shown : List Shown}
    (h : List.Forall₂ (Reader.Yields Reader.wholeAttribute) body (shown.map (·.documented)))
    (hkind : ∀ p ∈ shown, isBodyAttribute p.documented = true) :
    bodyAttributes (attributeBlock
      (((pathPurpose? verb).map (pathParameter model)).toList ++ body)) =
        shown.map (·.documented) := by
  have hkept : (shown.map (·.documented)).filter isBodyAttribute = shown.map (·.documented) := by
    refine List.filter_eq_self.mpr fun a ha => ?_
    obtain ⟨p, hp, rfl⟩ := List.mem_map.mp ha
    exact hkind p hp
  unfold bodyAttributes
  cases pathPurpose? verb with
  | none =>
    rw [Option.map_none, Option.toList_none, List.nil_append, many_attributeBlock h, hkept]
  | some purpose =>
    obtain ⟨a, hpath, hother⟩ := pathParameter_yields model purpose
    rw [Option.map_some, Option.toList_some, List.singleton_append,
      many_attributeBlock (.cons hpath h), List.filter_cons_of_neg (by simp [hother]), hkept]

/-- Without documented foreign keys, a method with a body is there exactly when each column of a
request body has an example and, if it is an enum, a class that can be written. Then the data object
is there too, and the attributes of body parameters in what the method is filled in with are one for
each of the first properties in what the data object is filled in with, in the order of these
columns. The other properties are those of related names. -/
theorem documented_as_declared (hoff : s.documentForeignKeys = false)
    (hbody : hasBody verb = true) :
    ((∃ text, methodText s now c (some e) verb stub = .ok text) ↔
        ∀ column ∈ e.columns, column.isBodyColumn = true → ¬column.HasLongClass ∧
          ∃ literal, Example.exampleValue column.name column.dataType column.values? now =
            .ok literal) ∧
      ∀ text, methodText s now c (some e) verb stub = .ok text →
        ∃ (a : Artifact) (attributes properties : Text) (shown : List Shown),
          DataFile.artifact s e dataStub = .ok a ∧
          Stub.Filled stub (verb ++ "Attributes") attributes text ∧
          Stub.Filled dataStub "properties" properties a.content ∧
          shown.map (·.column) = e.columns.filter Column.isBodyColumn ∧
          bodyAttributes attributes = shown.map (·.documented) ∧
          properties = join ("\n" ++ spaces 8) ((shown.map (·.declared) ++
            (DataFile.relatedProperties s e).map (·.text)).map (· ++ ",")) ∧
          ∀ p ∈ shown, p.Agree s e := by
  have hlines (model : Text) : attributeLines s now verb model (some e) =
      ((e.columns.filter Column.isBodyColumn).mapM (bodyParameter s now e)).map fun body =>
        ((pathPurpose? verb).map (pathParameter model)).toList ++ body := by
    unfold attributeLines
    dsimp only
    rw [if_pos hbody, documented_eq_bodyColumns hoff]
  constructor
  · rw [methodText_eq, hlines, Except.exists_map_eq_ok, Except.exists_map_eq_ok,
      Except.exists_mapM_eq_ok_iff]
    simp only [List.mem_filter, and_imp, exists_bodyParameter_iff]
  · intro text htext
    rw [methodText_eq, hlines] at htext
    obtain ⟨lines, hmade, rfl⟩ := Except.map_eq_ok_iff.mp htext
    obtain ⟨body, hbodies, rfl⟩ := Except.map_eq_ok_iff.mp hmade
    obtain ⟨shown, ps, hcolumns, hyields, hps, htexts, hall⟩ :=
      exists_allShown (fun column hcolumn => (List.mem_filter.mp hcolumn).2) hbodies
    have hproperties : DataFile.properties s e = .ok (ps ++ DataFile.relatedProperties s e) :=
      DataFile.properties_eq_ok_iff.mpr ⟨ps, hps, rfl⟩
    refine ⟨DataFile.fileOf s e dataStub (ps ++ DataFile.relatedProperties s e), _, _, shown,
      Except.map_eq_ok_iff.mpr ⟨_, hproperties, rfl⟩,
      ⟨_, rfl, methodSlots_attributes hbody _⟩,
      ⟨_, DataFile.fileOf_content s e dataStub _, DataFile.classSlots_properties s e _⟩, hcolumns,
      bodyAttributes_attributeBlock _ _ hyields fun p hp => (hall p hp).1, ?_,
      fun p hp => (hall p hp).2⟩
    rw [DataFile.propertyBlock_eq, List.map_append, htexts]

def postStore : Controller where
  name := "Post"
  methods := ["store"]

theorem postStore_documents_eventfulPost :
    ∃ (text : Text) (a : Artifact) (attributes properties : Text) (shown : List Shown),
    methodText {} plainSite.now postStore (some DataFile.eventfulPost) "store" Stub.storeMethod =
        .ok text ∧
      DataFile.artifact {} DataFile.eventfulPost Stub.dataClass = .ok a ∧
      attributes <:+: text ∧ properties <:+: a.content ∧
      shown.map (·.column.name) = [("status" : Text), "day"] ∧
      bodyAttributes attributes = shown.map (·.documented) ∧
      properties = join ("\n" ++ spaces 8) ((shown.map (·.declared) ++
        (DataFile.relatedProperties {} DataFile.eventfulPost).map (·.text)).map (· ++ ",")) ∧
      ∀ p ∈ shown, p.Agree {} DataFile.eventfulPost := by
  obtain ⟨-, hall⟩ := @documented_as_declared {} plainSite.now DataFile.eventfulPost "store"
    Stub.storeMethod Stub.dataClass postStore rfl rfl
  obtain ⟨text, htext⟩ : ∃ text, methodText {} plainSite.now postStore
      (some DataFile.eventfulPost) "store" Stub.storeMethod = .ok text := ⟨_, rfl⟩
  obtain ⟨a, attributes, properties, shown, ha, hattributes, hproperties, hcolumns, hread, hblock,
    hagree⟩ := hall text htext
  have hnames : shown.map (·.column.name) = (shown.map (·.column)).map (·.name) :=
    (List.map_map ..).symm
  rw [hcolumns] at hnames
  exact ⟨text, a, attributes, properties, shown, htext, ha,
    hattributes.infix ⟨Stub.slot "storeAttributes", by decide +kernel⟩,
    hproperties.infix ⟨Stub.slot "properties", by decide +kernel⟩, hnames, hread, hblock, hagree⟩

end ControllerFile

end ApiScaffold
