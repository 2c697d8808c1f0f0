import ApiScaffold.Proofs.StubAnswers
import Mathlib.Data.List.Forall2

/-!
# Entities that lead to the same files

The text that is made for a column depends on its name, on whether it may be null, on its type up
to case, on the values of an enum and on the class declared for it. Two entities whose columns
agree in these one by one, and which agree in everything but their columns, cannot be told apart
by a controller or a data object, whatever stubs there are. The other attributes of a column, such
as a length or a default, are not read at all.
-/
namespace ApiScaffold

open Text

theorem TypeFamily.of?_congr {a b : Text} (h : lower a = lower b) : of? a = of? b := by
  unfold of?
  rw [h]

/-- Columns that agree in all that a generated file shows of them. -/
structure Column.Interchangeable (c d : Column) : Prop where
  name : c.name = d.name
  nullable : c.nullable = d.nullable
  dataType : lower c.dataType = lower d.dataType
  values : c.values? = d.values?
  enumClass : Mapping.getText? "enum_class" c.attributes =
    Mapping.getText? "enum_class" d.attributes

/-- Entities that agree but for what their columns may differ in. -/
structure Entity.Interchangeable (e f : Entity) : Prop where
  name : e.name = f.name
  columns : List.Forall₂ Column.Interchangeable e.columns f.columns
  relationships : e.relationships = f.relationships
  timestamps : e.timestamps = f.timestamps
  softDeletes : e.softDeletes = f.softDeletes

/-! ### One column -/

namespace Column.Interchangeable

variable {c d : Column} (h : c.Interchangeable d)
include h

theorem family : TypeFamily.of? c.dataType = TypeFamily.of? d.dataType :=
  TypeFamily.of?_congr h.dataType

theorem isForeignKey : c.isForeignKey = d.isForeignKey := by
  unfold Column.isForeignKey
  rw [h.name]

theorem isManaged : c.isManaged = d.isManaged := by
  unfold Column.isManaged
  rw [h.name]

theorem isBodyColumn : c.isBodyColumn = d.isBodyColumn := by
  unfold Column.isBodyColumn
  rw [h.isManaged, h.isForeignKey]

theorem isEnum : c.isEnum = d.isEnum := by
  unfold Column.isEnum isEnumType
  rw [h.family]

theorem isDate : c.isDate = d.isDate := by
  unfold Column.isDate isDateType
  rw [h.family]

theorem mapping (cls : Option Text) :
    TypeMapping.of c.dataType c.name cls = TypeMapping.of d.dataType d.name cls := by
  unfold TypeMapping.of
  rw [h.name, h.family]

theorem byType (now : Moment) :
    Example.byType c.name c.dataType c.values? now =
      Example.byType d.name d.dataType d.values? now := by
  unfold Example.byType
  rw [h.name, h.family, h.values]

theorem exampleValue (now : Moment) :
    Example.exampleValue c.name c.dataType c.values? now =
      Example.exampleValue d.name d.dataType d.values? now := by
  unfold Example.exampleValue
  rw [h.byType now, h.name]

theorem enumClass? (s : Settings) (entity : Text) :
    ClassNames.enumClass? s c entity = ClassNames.enumClass? s d entity := by
  unfold ClassNames.enumClass? ClassNames.enumClass
  rw [h.isEnum, h.enumClass, h.name]

theorem documents (s : Settings) :
    ControllerFile.documents s c = ControllerFile.documents s d := by
  unfold ControllerFile.documents
  rw [h.isManaged, h.isForeignKey]

theorem isExact : AllowList.isExact c = AllowList.isExact d := by
  unfold AllowList.isExact
  rw [h.isManaged, h.isForeignKey, h.isEnum]

theorem isPartial : AllowList.isPartial c = AllowList.isPartial d := by
  unfold AllowList.isPartial
  rw [h.isManaged, h.isForeignKey, h.isEnum, h.family]

end Column.Interchangeable

/-! ### One entity -/

/-- What is picked from columns and made of them is the same for interchangeable ones. -/
theorem map_filter_of_interchangeable {α : Type} {cs ds : List Column}
    (h : List.Forall₂ Column.Interchangeable cs ds) {keep keep' : Column → Bool}
    (hkeep : ∀ c d, c.Interchangeable d → keep c = keep' d) {make make' : Column → α}
    (hmake : ∀ c d, c.Interchangeable d → make c = make' d) :
    (cs.filter keep).map make = (ds.filter keep').map make' := by
  induction h with
  | nil => rfl
  | @cons c d cs ds hcd _ ih =>
    have hsame := hkeep c d hcd
    by_cases hc : keep c = true
    · have hd : keep' d = true := by rw [← hsame, hc]
      rw [List.filter_cons_of_pos hc, List.filter_cons_of_pos hd, List.map_cons, List.map_cons,
        hmake c d hcd, ih]
    · have hd : ¬keep' d = true := by rwa [← hsame]
      rw [List.filter_cons_of_neg hc, List.filter_cons_of_neg hd, ih]

theorem mapM_filter_of_interchangeable {α : Type} {cs ds : List Column}
    (h : List.Forall₂ Column.Interchangeable cs ds) {keep keep' : Column → Bool}
    (hkeep : ∀ c d, c.Interchangeable d → keep c = keep' d) {make make' : Column → Except Misuse α}
    (hmake : ∀ c d, c.Interchangeable d → make c = make' d) :
    (cs.filter keep).mapM make = (ds.filter keep').mapM make' := by
  have hall := congrArg (List.mapM id) (map_filter_of_interchangeable h hkeep hmake)
  rw [List.mapM_map, List.mapM_map] at hall
  exact hall

namespace Entity.Interchangeable

variable {e f : Entity} (h : e.Interchangeable f)
include h

theorem columnNames : e.columnNames = f.columnNames := by
  have hnames := map_filter_of_interchangeable h.columns (fun _ _ _ => Eq.refl true)
    (fun _ _ hcd => hcd.name)
  rwa [List.filter_true, List.filter_true] at hnames

theorem related : e.related = f.related := by
  unfold Entity.related
  rw [h.relationships]

theorem filters : AllowList.filters (some e) = AllowList.filters (some f) := by
  have hexact := map_filter_of_interchangeable h.columns (fun _ _ hcd => hcd.isExact)
    (fun _ _ hcd => congrArg AllowList.Filter.exact hcd.name)
  have hpartial := map_filter_of_interchangeable h.columns (fun _ _ hcd => hcd.isPartial)
    (fun _ _ hcd => congrArg AllowList.Filter.partly hcd.name)
  simp only [AllowList.filters]
  rw [hexact, hpartial, h.softDeletes]

theorem sorts (sortable : List Text) :
    AllowList.sorts (some e) sortable = AllowList.sorts (some f) sortable := by
  simp only [AllowList.sorts]
  rw [h.columnNames, h.timestamps]

theorem includes : AllowList.includes (some e) = AllowList.includes (some f) := by
  simp only [AllowList.includes]
  rw [h.related]

theorem documented_eq_nil (s : Settings) :
    ControllerFile.documented s e = [] ↔ ControllerFile.documented s f = [] := by
  have hnames := map_filter_of_interchangeable h.columns (fun _ _ hcd => hcd.documents s)
    (fun _ _ hcd => hcd.name)
  unfold ControllerFile.documented
  rw [← List.map_eq_nil_iff, hnames, List.map_eq_nil_iff]

theorem bodyParameters (s : Settings) (now : Moment) :
    (ControllerFile.documented s e).mapM (ControllerFile.bodyParameter s now e) =
      (ControllerFile.documented s f).mapM (ControllerFile.bodyParameter s now f) := by
  refine mapM_filter_of_interchangeable h.columns (fun _ _ hcd => hcd.documents s) ?_
  intro c d hcd
  have htext : ControllerFile.bodyText c = ControllerFile.bodyText d := by
    funext cls literal
    unfold ControllerFile.bodyText
    rw [hcd.mapping, hcd.name, hcd.nullable]
  unfold ControllerFile.bodyParameter
  rw [hcd.enumClass?, hcd.exampleValue, htext, h.name]

theorem attributeLines (s : Settings) (now : Moment) (verb model : Text) :
    ControllerFile.attributeLines s now verb model (some e) =
      ControllerFile.attributeLines s now verb model (some f) := by
  simp only [ControllerFile.attributeLines, h.bodyParameters s now]

theorem methodText (s : Settings) (now : Moment) (c : Controller) (verb stub : Text) :
    ControllerFile.methodText s now c (some e) verb stub =
      ControllerFile.methodText s now c (some f) verb stub := by
  simp only [ControllerFile.methodText, h.attributeLines]

theorem controllerImports (s : Settings) (c : Controller) (verbs : List Text) :
    ControllerFile.imports s c (some e) verbs = ControllerFile.imports s c (some f) verbs := by
  have hclaim : AllowList.claimFilters (some e) = AllowList.claimFilters (some f) := by
    funext imports
    unfold AllowList.claimFilters
    rw [h.filters]
  have hclasses : ControllerFile.methodClasses s c.modelName (some e) =
      ControllerFile.methodClasses s c.modelName (some f) := by
    funext verb
    simp only [ControllerFile.methodClasses, ne_eq, h.documented_eq_nil s]
  simp only [ControllerFile.imports, hclaim, hclasses]

theorem controllerArtifact (s : Settings) (c : Controller) (stub : Text)
    (methods : List (Text × Text)) :
    ControllerFile.artifact s c (some e) stub methods =
      ControllerFile.artifact s c (some f) stub methods := by
  simp only [ControllerFile.artifact, AllowList.filtersText, AllowList.sortsText,
    AllowList.includesText, h.filters, h.sorts, h.includes, h.controllerImports]

theorem dataProperties (s : Settings) : DataFile.properties s e = DataFile.properties s f := by
  have hcolumns : DataFile.columnProperties s e = DataFile.columnProperties s f := by
    refine mapM_filter_of_interchangeable h.columns (fun _ _ hcd => hcd.isBodyColumn) ?_
    intro c d hcd
    have hproperty : DataFile.propertyOf c = DataFile.propertyOf d := by
      funext cls
      unfold DataFile.propertyOf
      rw [hcd.isDate, hcd.mapping, hcd.name, hcd.nullable]
    unfold DataFile.columnProperty
    rw [hcd.enumClass?, hproperty, h.name]
  unfold DataFile.properties DataFile.relatedProperties
  rw [hcolumns, h.columnNames, h.related]

theorem dataArtifact (s : Settings) (stub : Text) :
    DataFile.artifact s e stub = DataFile.artifact s f stub := by
  have hfile : DataFile.fileOf s e stub = DataFile.fileOf s f stub := by
    funext properties
    unfold DataFile.fileOf DataFile.path
    rw [h.name]
  unfold DataFile.artifact
  rw [h.dataProperties, hfile]

end Entity.Interchangeable

/-! ### Rendering -/

namespace Job

variable {e f : Entity}

theorem methods_interchangeable (h : e.Interchangeable f) (site : Site) (s : Settings)
    (tree : Tree) (c : Controller) (verbs : List Text) (stubs : Stub.Repository) :
    methods site s tree c (some e) verbs stubs = methods site s tree c (some f) verbs stubs := by
  induction verbs generalizing stubs with
  | nil => rfl
  | cons verb rest ih =>
    unfold methods
    simp only [ih, h.methodText]

/-- Interchangeable entities are rendered alike, as the data object of their own and as the entity
of any controller, with any settings and stubs and at any moment. -/
theorem render_interchangeable (h : e.Interchangeable f) (site : Site) (s : Settings)
    (tree : Tree) (stubs : Stub.Repository) :
    (∀ c, render site s tree stubs (controller c (some e)) =
        render site s tree stubs (controller c (some f))) ∧
      render site s tree stubs (data e) = render site s tree stubs (data f) := by
  have hcontroller : ∀ (c : Controller) (stub : Text) (stubs : Stub.Repository),
      fill site s tree stub stubs (controller c (some e)) =
        fill site s tree stub stubs (controller c (some f)) := by
    intro c stub stubs
    simp only [fill, methods_interchangeable h, h.controllerArtifact]
  have hdata : ∀ (stub : Text) (stubs : Stub.Repository),
      fill site s tree stub stubs (data e) = fill site s tree stub stubs (data f) := by
    intro stub stubs
    simp only [fill, h.dataArtifact]
  constructor
  · intro c
    simp only [render, classStub, hcontroller]
  · simp only [render, classStub, hdata]

/-- Two records that are written differently: the types in another case, and a length, a default
and an index in one of them only. -/
def post : Entity :=
  { name := "Post",
    columns := [{ name := "title" },
      { name := "status", dataType := "enum",
        attributes := [(.text "values", .list [.text "draft", .text "live"])] }] }

def postInCapitals : Entity :=
  { name := "Post",
    columns := [
      { name := "title", dataType := "STRING",
        attributes := [(.text "length", .int 80), (.text "default", .text "x")] },
      { name := "status", dataType := "Enum",
        attributes := [(.text "index", .bool true),
          (.text "values", .list [.text "draft", .text "live"])] }] }

theorem post_interchangeable : post.Interchangeable postInCapitals where
  name := rfl
  columns := .cons ⟨rfl, rfl, by decide, rfl, rfl⟩ (.cons ⟨rfl, rfl, by decide, rfl, rfl⟩ .nil)
  relationships := rfl
  timestamps := rfl
  softDeletes := rfl

/-- A controller with an action of each kind. -/
def postActions : Controller := { name := "Post", methods := ["index", "store", "destroy"] }

theorem post_rendered_alike :
    (render plainSite {} plainTree packagedStubs
        (controller postActions (some post))).isOk = true ∧
      render plainSite {} plainTree packagedStubs
          (controller postActions (some post)) =
        render plainSite {} plainTree packagedStubs
          (controller postActions (some postInCapitals)) ∧
      render plainSite {} plainTree packagedStubs (data post) =
        render plainSite {} plainTree packagedStubs (data postInCapitals) := by
  obtain ⟨hcontroller, hdata⟩ := render_interchangeable post_interchangeable plainSite {}
    plainTree packagedStubs
  exact ⟨by decide +kernel, hcontroller postActions, hdata⟩

end Job

end ApiScaffold
