import ApiScaffold.Check.Rules
import ApiScaffold.Proofs.EntityLookup
import ApiScaffold.Proofs.Rendering

/-!
# Models that get a controller

A controller that is made for an entity bears its name, but the entity that it serves is looked
up again by the model of the controller: the name without an ending, singular and capitalised.
An entity whose name does not come out of that unchanged may be served by no controller at all.
The main theorem says exactly when every entity is served.
-/
namespace ApiScaffold.Job

variable {schema : Schema} {s : Settings} {e : Entity}

/-- Some generated controller is rendered with the entity. -/
def Serves (schema : Schema) (s : Settings) (e : Entity) : Prop :=
  ∃ c, controller c (some e) ∈ all schema s

/-! ## Models by name -/

/-- The model of a controller with the given name. -/
def modelOf (name : Text) : Text := Controller.modelName { name }

/-- The models of the declared controllers that are generated. -/
def declaredModels (schema : Schema) (s : Settings) : List Text :=
  (declared schema s).map Controller.modelName

/-- The models of all controllers, when every entity is to have one: those of the declared
controllers, and for each entity that is none of them the model that its own name leads to. -/
def models (schema : Schema) (s : Settings) : List Text :=
  declaredModels schema s ++
    (schema.entityNames.filter fun name => !(declaredModels schema s).contains name).map modelOf

/-- The name is one of the models, or the form of one that is no name of an entity. -/
def Reached (schema : Schema) (s : Settings) (name : Text) : Prop :=
  name ∈ models schema s ∨
    ∃ model ∈ models schema s, model ∉ schema.entityNames ∧ entityForm model = name

theorem map_modelName_controllers (hall : s.controllersForAllModels = true) :
    (controllers schema s).map Controller.modelName = models schema s := by
  have hnames : (unserved schema s).map (·.name) =
      schema.entityNames.filter fun name => !(declaredModels schema s).contains name := by
    unfold unserved Schema.entityNames
    rw [if_pos hall, List.filter_map]
    rfl
  unfold models
  rw [controllers_eq, List.map_append, ← hnames, List.map_map, List.map_map]
  rfl

theorem reached_iff (hall : s.controllersForAllModels = true) :
    Reached schema s e.name ↔ ∃ c ∈ controllers schema s, schema.RefersTo c.modelName e := by
  unfold Reached
  rw [← map_modelName_controllers hall]
  simp only [List.mem_map, exists_exists_and_eq_and]
  constructor
  · rintro (⟨c, hc, hname⟩ | ⟨c, hc, hno, hform⟩)
    · exact ⟨c, hc, Or.inl hname.symm⟩
    · exact ⟨c, hc, Or.inr ⟨hno, hform.symm⟩⟩
  · rintro ⟨c, hc, hname | ⟨hno, hform⟩⟩
    · exact Or.inl ⟨c, hc, hname.symm⟩
    · exact Or.inr ⟨c, hc, hno, hform.symm⟩

theorem serves_iff (hnames : schema.entityNames.Nodup) (hgenerate : s.generateControllers = true)
    (hall : s.controllersForAllModels = true) (he : e ∈ schema.entities) :
    Serves schema s e ↔ Reached schema s e.name := by
  rw [reached_iff hall]
  constructor
  · rintro ⟨c, hc⟩
    rw [all_eq] at hc
    rcases List.mem_append.mp hc with hc | hc
    · obtain ⟨-, d, hd, heq⟩ := mem_controllerJobs.mp hc
      injection heq with hcd hentity
      exact ⟨d, hd, (Schema.entity?_some hentity.symm).2⟩
    · obtain ⟨-, d, -, heq⟩ := mem_dataJobs.mp hc
      cases heq
  · rintro ⟨c, hc, hrefers⟩
    have hentity := (Schema.entity?_eq_some_iff hnames).mpr ⟨he, hrefers⟩
    refine ⟨c, ?_⟩
    rw [all_eq, ← hentity]
    exact List.mem_append_left _ (mem_controllerJobs.mpr ⟨hgenerate, c, hc, rfl⟩)

/-- A name is reached by a declared controller of that model, or by its own when it survives the
way back. -/
theorem reached_of_modelOf {name : Text} (hname : name ∈ schema.entityNames)
    (hown : name ∉ declaredModels schema s → modelOf name = name) : Reached schema s name := by
  refine Or.inl (List.mem_append.mpr ?_)
  by_cases hknown : name ∈ declaredModels schema s
  · exact Or.inl hknown
  · refine Or.inr (List.mem_map.mpr ⟨name, ?_, hown hknown⟩)
    exact List.mem_filter.mpr ⟨hname, by simpa using hknown⟩

/-- With a controller for every model, an entity is served exactly when its name is one of the
models of the controllers, or the form of such a model that no entity has for its name. So all are
served exactly when this holds of the names that are the model of no declared controller, as it
does when these names survive the way back. -/
theorem all_served_iff (hnames : schema.entityNames.Nodup)
    (hgenerate : s.generateControllers = true) (hall : s.controllersForAllModels = true) :
    (∀ e ∈ schema.entities, Serves schema s e ↔ Reached schema s e.name) ∧
    ((∀ e ∈ schema.entities, Serves schema s e) ↔
      ∀ name ∈ schema.entityNames, name ∉ declaredModels schema s → Reached schema s name) ∧
    ((∀ name ∈ schema.entityNames, name ∉ declaredModels schema s → modelOf name = name) →
      ∀ e ∈ schema.entities, Serves schema s e) := by
  have hserves : ∀ e ∈ schema.entities, Serves schema s e ↔ Reached schema s e.name :=
    fun e he => serves_iff hnames hgenerate hall he
  have hmem : ∀ e ∈ schema.entities, e.name ∈ schema.entityNames :=
    fun e he => List.mem_map_of_mem he
  refine ⟨hserves, ⟨fun h name hname _ => ?_, fun h e he => ?_⟩, fun h e he => ?_⟩
  · obtain ⟨e, he, rfl⟩ := List.mem_map.mp hname
    exact (hserves e he).mp (h e he)
  · rw [hserves e he]
    by_cases hknown : e.name ∈ declaredModels schema s
    · exact Or.inl (List.mem_append_left _ hknown)
    · exact h e.name (hmem e he) hknown
  · exact (hserves e he).mpr (reached_of_modelOf (hmem e he) (h e.name (hmem e he)))

theorem servedAndUnserved_served_iff :
    servedAndUnserved.entityNames.Nodup ∧
      ((∀ e ∈ servedAndUnserved.entities, Serves servedAndUnserved everyModel e) ↔
        ∀ name ∈ servedAndUnserved.entityNames,
          name ∉ declaredModels servedAndUnserved everyModel →
            Reached servedAndUnserved everyModel name) ∧
      ∀ e ∈ servedAndUnserved.entities, Serves servedAndUnserved everyModel e := by
  have hnames : servedAndUnserved.entityNames.Nodup := by decide
  obtain ⟨-, hiff, hback⟩ := all_served_iff (s := everyModel) hnames rfl rfl
  exact ⟨hnames, hiff, hback (by decide +kernel)⟩

/-- An entity whose name looks like a plural. -/
def news : Schema := { entities := [{ name := "News", columns := [{ name := "title" }] }] }

theorem news_not_served :
    ∃ found, Check.full plainTree plainSite.cwd news everyModel = .ok found ∧
      found.isValid = true ∧
      ∃ e ∈ news.entities, ∀ c, controller c (some e) ∉ all news everyModel := by
  refine ⟨_, rfl, by decide +kernel, _, List.mem_cons_self, fun c hc => ?_⟩
  have hall : all news everyModel =
      [controller { name := "News", methods := everyModel.defaultControllerMethods } none,
        data { name := "News", columns := [{ name := "title" }] }] := by rfl
  rw [hall] at hc
  simp at hc

end ApiScaffold.Job
