import ApiScaffold.Proofs.ImportedClasses
import ApiScaffold.Proofs.NameLetters
import ApiScaffold.Proofs.RelatedData
import ApiScaffold.Proofs.RemovedFiles

/-!
# Short names in generated files

A file refers to its own class and to the classes that it imports by the last segments of their
names, and no two classes of a file may share a last segment, whatever its case. The imports are
kept apart by their full names alone, and the checks do not look at them. The main theorem says
exactly when all files of a schema without an error are free of shared segments. Names that only
a stub brings in are not covered.
-/
namespace ApiScaffold

open Text

namespace ClassNames

/-- What a class is called in a file that imports it. -/
def short (cls : Text) : Text := afterLast '\\' cls

/-- What a class is called, when case does not count. -/
def shortKey (cls : Text) : Text := (short cls).map lowerAscii

/-- Two classes that one file cannot tell apart. -/
def SameShort (a b : Text) : Prop := shortKey a = shortKey b

instance (a b : Text) : Decidable (SameShort a b) := inferInstanceAs (Decidable (_ = _))

/-- Classes of which no two have the same short name. -/
def ToldApart (names : List Text) : Prop := ∀ a ∈ names, ∀ b ∈ names, SameShort a b → a = b

theorem toldApart_cons {a : Text} {names : List Text} :
    ToldApart (a :: names) ↔ (∀ b ∈ names, SameShort a b → a = b) ∧ ToldApart names := by
  constructor
  · intro h
    have hmem {b : Text} (hb : b ∈ names) : b ∈ a :: names := List.mem_cons_of_mem a hb
    exact ⟨fun b hb => h a List.mem_cons_self b (hmem hb),
      fun b hb b' hb' => h b (hmem hb) b' (hmem hb')⟩
  · rintro ⟨hfirst, hrest⟩ b hb b' hb' hsame
    rcases List.mem_cons.mp hb with rfl | hbrest
    · rcases List.mem_cons.mp hb' with rfl | hbrest'
      · rfl
      · exact hfirst b' hbrest' hsame
    · rcases List.mem_cons.mp hb' with rfl | hbrest'
      · exact (hfirst b hbrest hsame.symm).symm
      · exact hrest b hbrest b' hbrest' hsame

/-- Every short name of a file stands for one class: that which the file declares or one of those
that it imports. -/
structure Unambiguous (declared : Text) (names : List Text) : Prop where
  imported : ToldApart names
  own : ∀ a ∈ names, SameShort declared a → declared = a

theorem unambiguous_iff {declared : Text} {names : List Text} :
    Unambiguous declared names ↔ ToldApart (declared :: names) := by
  rw [toldApart_cons]
  exact ⟨fun h => ⟨h.own, h.imported⟩, fun h => ⟨h.2, h.1⟩⟩

theorem short_append {last : Text} (h : '\\' ∉ last) (space : Text) :
    short (space ++ "\\" ++ last) = last :=
  afterLast_append (Or.inr ⟨space, rfl⟩) h

theorem short_qualify {last : Text} (h : '\\' ∉ last) (hne : last ≠ []) (s : Settings)
    (parts : List Text) : short (s.qualify (parts ++ [last])) = last := by
  obtain ⟨pieces, hpieces⟩ : ∃ pieces : List Text, s.qualify (parts ++ [last]) =
      join "\\" (pieces ++ [last]) := by
    refine ⟨s.rootNamespace :: (parts.filter (· ≠ [])).map (stripChar '\\'), ?_⟩
    unfold Settings.qualify
    rw [List.filter_append, List.map_append, List.filter_singleton, decide_eq_true hne]
    rw [cond_true, List.map_singleton, stripChar_of_not_mem h, List.cons_append]
  have hfront : pieces.flatMap (· ++ ("\\" : Text)) = [] ∨
      ∃ f, pieces.flatMap (· ++ ("\\" : Text)) = f ++ ['\\'] := by
    rcases List.eq_nil_or_concat' pieces with rfl | ⟨rest, piece, rfl⟩
    · exact Or.inl rfl
    · refine Or.inr ⟨rest.flatMap (· ++ ("\\" : Text)) ++ piece, ?_⟩
      rw [List.flatMap_append, List.flatMap_singleton, ← List.append_assoc]
      rfl
  rw [hpieces, join_concat]
  exact afterLast_append hfront h

theorem backslash_not_mem_studly (name : Text) : '\\' ∉ Words.studly name := fun h => by
  have := Words.studly_alnum name _ h
  cases this

theorem short_qualifiedModel (s : Settings) {name : Text} (h : Words.studly name ≠ []) :
    short (qualifiedModel s name) = Words.studly name :=
  short_qualify (backslash_not_mem_studly name) h s [s.modelsNamespace]

theorem short_qualifiedResource (s : Settings) (space name : Text) :
    short (qualifiedResource s space name) = resourceClass name :=
  short_qualify (not_mem_studly_append (by decide) _ (by decide)) (by simp) s
    [("Http\\Resources" : Text), space]

theorem short_qualifiedData (s : Settings) (name : Text) :
    short (qualifiedData s name) = dataClass name :=
  short_qualify (backslash_not_mem_dataClass name) (dataClass_ne_nil name) s [("Data" : Text)]

theorem short_baseController (s : Settings) :
    short (baseController s) = "BaseApiController" :=
  short_qualify (by decide) (by decide) s [("Http\\Controllers" : Text), s.controllerNamespace]

/-- Classes with endings of which neither ends in the other are told apart. -/
theorem not_sameShort_of_endings {a b x y : Text} (ha : x <:+ shortKey a) (hb : y <:+ shortKey b)
    (h : ¬x <:+ y ∧ ¬y <:+ x) : ¬SameShort a b := by
  intro hab
  have hab : shortKey a = shortKey b := hab
  rw [← hab] at hb
  rcases List.suffix_or_suffix_of_suffix ha hb with hxy | hyx
  · exact h.1 hxy
  · exact h.2 hyx

theorem not_sameShort_of_length {a b : Text} (h : (short a).length < (short b).length) :
    ¬SameShort a b := by
  intro hab
  have hlength := congrArg List.length (show shortKey a = shortKey b from hab)
  unfold shortKey at hlength
  rw [List.length_map, List.length_map] at hlength
  omega

end ClassNames

open ClassNames

/-! ### Controllers -/

namespace ControllerFile

variable {s : Settings} {c : Controller} {e : Option Entity} {verbs : List Text} {cls : Text}

/-- The class that the file of a controller declares. -/
def declaredClass (s : Settings) (c : Controller) : Text :=
  controllerSpace s c.space ++ "\\" ++ c.className

/-- The classes of the framework that a controller may need. -/
def frameworkClasses (s : Settings) : List Text :=
  [baseController s, jsonResponse, AllowList.filterClass, pathParameterClass, bodyParameterClass]

/-- What keeps the short names in the file of a controller apart: its model is not called like a
class of the framework that it needs, and the controller itself not like the one that it
extends. -/
structure Apart (s : Settings) (c : Controller) (e : Option Entity) (verbs : List Text) : Prop where
  model : e.isSome = true → ∀ cls ∈ frameworkClasses s, Needs s c e verbs cls →
    SameShort (qualifiedModel s c.modelName) cls → qualifiedModel s c.modelName = cls
  own : SameShort (declaredClass s c) (baseController s) → declaredClass s c = baseController s

/-- The classes with an ending that tells their kind. -/
def namedClasses (s : Settings) (c : Controller) : List Text :=
  [declaredClass s c, qualifiedResource s c.space c.modelName, qualifiedData s c.modelName]

/-- All classes of a file but the model. -/
def fixedClasses (s : Settings) (c : Controller) : List Text :=
  namedClasses s c ++ frameworkClasses s

theorem Needs.mem_fixedClasses (h : Needs s c e verbs cls) :
    cls ∈ fixedClasses s c ∨ e.isSome = true ∧ cls = qualifiedModel s c.modelName := by
  cases h with
  | model he => exact Or.inr ⟨he, rfl⟩
  | response | base | resource | exactFilter | trashedFilter | data | path | body =>
    exact Or.inl (by simp [fixedClasses, namedClasses, frameworkClasses])

theorem short_declaredClass (s : Settings) (c : Controller) :
    short (declaredClass s c) = c.className :=
  short_append c.backslash_not_mem_className _

theorem suffix_declaredClass (s : Settings) (c : Controller) :
    "controller" <:+ shortKey (declaredClass s c) := by
  rw [shortKey, short_declaredClass, Controller.className, List.map_append]
  exact List.suffix_append _ _

theorem suffix_qualifiedResource (s : Settings) (space name : Text) :
    "resource" <:+ shortKey (qualifiedResource s space name) := by
  rw [shortKey, short_qualifiedResource, resourceClass, List.map_append]
  exact List.suffix_append _ _

theorem suffix_qualifiedData (s : Settings) (name : Text) :
    "data" <:+ shortKey (qualifiedData s name) := by
  rw [shortKey, short_qualifiedData, dataClass, List.map_append]
  exact List.suffix_append _ _

/-- The short names of the framework without case, the class that controllers extend first. -/
def frameworkKeys : List Text :=
  ["baseapicontroller", "jsonresponse", "allowedfilter", "pathparameter", "bodyparameter"]

theorem map_shortKey_frameworkClasses (s : Settings) :
    (frameworkClasses s).map shortKey = frameworkKeys := by
  have hbase : shortKey (baseController s) = "baseapicontroller" := by
    rw [shortKey, short_baseController]
    rfl
  rw [frameworkClasses, List.map_cons, hbase]
  decide +kernel

theorem shortKey_mem_frameworkKeys (h : cls ∈ frameworkClasses s) :
    shortKey cls ∈ frameworkKeys := by
  rw [← map_shortKey_frameworkClasses s]
  exact List.mem_map_of_mem h

theorem frameworkClasses_toldApart (s : Settings) : ToldApart (frameworkClasses s) := by
  have hnodup : ((frameworkClasses s).map shortKey).Nodup := by
    rw [map_shortKey_frameworkClasses]
    decide
  exact fun a ha b hb hab => List.inj_on_of_nodup_map hnodup ha hb hab

theorem not_sameShort_framework {ending : Text} (ha : ending <:+ shortKey cls)
    (hending : ∀ key ∈ frameworkKeys, ¬ending <:+ key ∧ ¬key <:+ ending) {b : Text}
    (hb : b ∈ frameworkClasses s) : ¬SameShort cls b :=
  not_sameShort_of_endings ha (List.suffix_refl _) (hending _ (shortKey_mem_frameworkKeys hb))

theorem fixedClasses_toldApart
    (hown : SameShort (declaredClass s c) (baseController s) →
      declaredClass s c = baseController s) : ToldApart (fixedClasses s c) := by
  have hdeclared := suffix_declaredClass s c
  have hresource := suffix_qualifiedResource s c.space c.modelName
  have hdata := suffix_qualifiedData s c.modelName
  refine toldApart_cons.mpr ⟨fun b hb hab => ?_, toldApart_cons.mpr ⟨fun b hb hab => ?_,
    toldApart_cons.mpr ⟨fun b hb hab => ?_, frameworkClasses_toldApart s⟩⟩⟩
  · rcases List.mem_cons.mp hb with rfl | hb
    · exact absurd hab (not_sameShort_of_endings hdeclared hresource (by decide))
    rcases List.mem_cons.mp hb with rfl | hb
    · exact absurd hab (not_sameShort_of_endings hdeclared hdata (by decide))
    rcases List.mem_cons.mp hb with rfl | hb
    · exact hown hab
    · have hkey : shortKey b ∈ frameworkKeys.tail := by
        rw [← map_shortKey_frameworkClasses s]
        exact List.mem_map_of_mem hb
      have hendings : ∀ key ∈ frameworkKeys.tail,
          ¬("controller" : Text) <:+ key ∧ ¬key <:+ ("controller" : Text) := by
        decide
      exact absurd hab
        (not_sameShort_of_endings hdeclared (List.suffix_refl _) (hendings _ hkey))
  · rcases List.mem_cons.mp hb with rfl | hb
    · exact absurd hab (not_sameShort_of_endings hresource hdata (by decide))
    · exact absurd hab (not_sameShort_framework hresource (by decide) hb)
  · exact absurd hab (not_sameShort_framework hdata (by decide) hb)

/-- The model of a controller is called like none of the classes that are named after it. -/
theorem not_sameShort_model (hmodel : Words.studly c.modelName ≠ []) :
    ∀ b ∈ namedClasses s c, ¬SameShort (qualifiedModel s c.modelName) b := by
  have hlength : (short (qualifiedModel s c.modelName)).length = c.modelName.length := by
    rw [short_qualifiedModel s hmodel, Controller.modelName, entityForm,
      Words.length_studly_studly]
  have hdeclared : c.modelName.length < (short (declaredClass s c)).length := by
    have hform := length_entityForm c.stem
    have hending : Controller.classSuffix.length = 10 := rfl
    rw [short_declaredClass, Controller.className, List.length_append, Words.length_studly,
      hending, Controller.modelName]
    omega
  have hresource :
      c.modelName.length < (short (qualifiedResource s c.space c.modelName)).length := by
    have hending : ("Resource" : Text).length = 8 := rfl
    rw [short_qualifiedResource, resourceClass, List.length_append, hending,
      Controller.modelName, entityForm, Words.length_studly_studly]
    omega
  have hdata : c.modelName.length < (short (qualifiedData s c.modelName)).length := by
    have hform := length_entityForm c.modelName
    have hending : ("Data" : Text).length = 4 := rfl
    have hletters : Words.letters c.modelName = c.modelName.length :=
      Words.letters_eq_length (Words.studly_alnum _)
    rw [short_qualifiedData, dataClass, List.length_append, hending]
    omega
  rw [← hlength] at hdeclared hresource hdata
  intro b hb
  refine not_sameShort_of_length ?_
  rcases List.mem_cons.mp hb with rfl | hb
  · exact hdeclared
  rcases List.mem_cons.mp hb with rfl | hb
  · exact hresource
  · rw [List.mem_singleton.mp hb]
    exact hdata

/-- A controller whose model has a name has no two classes of one short name exactly when neither
its model nor its own class is called like another class. -/
theorem unambiguous_imports_iff (hs : s.Accepted)
    (hmodel : e.isSome = true → Words.studly c.modelName ≠ []) :
    Unambiguous (declaredClass s c) (imports s c e verbs).names ↔ Apart s c e verbs := by
  have hname {cls : Text} : cls ∈ (imports s c e verbs).names ↔ Needs s c e verbs cls :=
    mem_names_iff_needs hs
  constructor
  · rintro ⟨himported, hown⟩
    exact ⟨fun he cls _ hcls => himported _ (hname.mpr (.model he)) _ (hname.mpr hcls),
      hown _ (hname.mpr .base)⟩
  · intro h
    have hfixed := fixedClasses_toldApart h.own
    have hmodels : e.isSome = true → ∀ b, Needs s c e verbs b →
        SameShort (qualifiedModel s c.modelName) b → qualifiedModel s c.modelName = b := by
      intro he b hb hsame
      rcases hb.mem_fixedClasses with hfix | ⟨-, rfl⟩
      · rcases List.mem_append.mp hfix with hnamed | hframework
        · exact absurd hsame (not_sameShort_model (hmodel he) b hnamed)
        · exact h.model he b hframework hb hsame
      · rfl
    refine ⟨fun a ha b hb hsame => ?_, fun a ha hsame => ?_⟩
    · rw [hname] at ha hb
      rcases ha.mem_fixedClasses with hfixa | ⟨he, rfl⟩
      · rcases hb.mem_fixedClasses with hfixb | ⟨he, rfl⟩
        · exact hfixed a hfixa b hfixb hsame
        · exact (hmodels he a ha hsame.symm).symm
      · exact hmodels he b hb hsame
    · rw [hname] at ha
      have hdeclared : declaredClass s c ∈ namedClasses s c := List.mem_cons_self
      rcases ha.mem_fixedClasses with hfixa | ⟨he, rfl⟩
      · exact hfixed _ (List.mem_append_left _ hdeclared) a hfixa hsame
      · exact absurd hsame.symm (not_sameShort_model (hmodel he) _ hdeclared)

end ControllerFile

/-! ### Data objects -/

namespace DataFile

variable {s : Settings} {e : Entity} {ps : List Property} {cls : Text}

/-- The names that the data classes in a file are made from: that of the entity and those of the
related names with a property. -/
def Shows (s : Settings) (e : Entity) (form : Text) : Prop :=
  form = entityForm e.name ∨ ∃ r, Emits s e r ∧ form = entityForm r.2

/-- What keeps the short names in the file of a data object apart: no data class is made from a
name without letters, no two of them are spelled differently in case alone, and no enum is called
like another class of the file. -/
structure Apart (s : Settings) (e : Entity) : Prop where
  named : ∀ form, Shows s e form → form ≠ []
  spelled : ∀ form form', Shows s e form → Shows s e form' →
    form.map lowerAscii = form'.map lowerAscii → form = form'
  enums : ∀ c ∈ e.columns, c.isBodyColumn = true → c.isEnum = true →
    ∀ own, enumClass s c e.name = .ok own → ∀ cls, Needs s e cls ∨ cls = declaredClass s e →
      SameShort own cls → own = cls

/-- The data class of a name as it is spelled in other names. -/
def formClass (s : Settings) (form : Text) : Text := s.qualify ["Data"] ++ "\\" ++ (form ++ "Data")

def frameworkClasses : List Text := [baseClass, withCast, enumCast, dateClass, dateCast]

theorem formClass_entityForm (s : Settings) (name : Text) :
    formClass s (entityForm name) = qualifiedData s name := (qualifiedData_eq s name).symm

/-- The classes of a file are those of the framework, of its enums and of the names it shows. -/
theorem class_cases (h : Needs s e cls ∨ cls = declaredClass s e) :
    cls ∈ frameworkClasses ∨
      (∃ c ∈ e.columns, c.isBodyColumn = true ∧ c.isEnum = true ∧
        enumClass s c e.name = .ok cls) ∨
      ∃ form, Shows s e form ∧ cls = formClass s form := by
  rcases h with hneeds | rfl
  · cases hneeds with
    | base | castOfEnum | castOfDate | enumCast | dateClass | dateCast =>
      exact Or.inl (by simp [frameworkClasses])
    | enumClass hc hbody henum hcls => exact Or.inr (Or.inl ⟨_, hc, hbody, henum, hcls⟩)
    | related hr =>
      exact Or.inr (Or.inr ⟨_, Or.inr ⟨_, hr, rfl⟩, (formClass_entityForm s _).symm⟩)
  · exact Or.inr (Or.inr ⟨_, Or.inl rfl, rfl⟩)

/-- The data classes of a file are imported, or else the file declares them. -/
theorem Shows.needs_or_eq {form : Text} (h : Shows s e form) :
    Needs s e (formClass s form) ∨ formClass s form = declaredClass s e := by
  rcases h with rfl | ⟨r, hr, rfl⟩
  · exact Or.inr rfl
  · rw [formClass_entityForm]
    exact Or.inl (.related hr)

theorem shortKey_formClass (s : Settings) {form : Text} (h : Shows s e form) :
    shortKey (formClass s form) = form.map lowerAscii ++ "data" := by
  have hform : ∃ name, form = entityForm name := by
    rcases h with rfl | ⟨r, -, rfl⟩
    · exact ⟨_, rfl⟩
    · exact ⟨_, rfl⟩
  obtain ⟨name, rfl⟩ := hform
  rw [formClass_entityForm, shortKey, short_qualifiedData, dataClass, List.map_append]
  rfl

theorem frameworkClasses_toldApart : ToldApart frameworkClasses := by
  have hnodup : (frameworkClasses.map shortKey).Nodup := by decide +kernel
  exact fun a ha b hb hab => List.inj_on_of_nodup_map hnodup ha hb hab

/-- Of the framework only the class that data objects extend may be taken for a data class. -/
theorem form_eq_nil_of_sameShort {form : Text} (h : Shows s e form)
    (hcls : cls ∈ frameworkClasses) (hsame : SameShort (formClass s form) cls) : form = [] := by
  have hkey : form.map lowerAscii ++ "data" = shortKey cls := by
    rw [← shortKey_formClass s h]
    exact hsame
  have hends : ("data" : Text) <:+ shortKey cls := ⟨_, hkey⟩
  have hbase : ∀ cls ∈ frameworkClasses, ("data" : Text) <:+ shortKey cls →
      shortKey cls = "data" := by
    decide +kernel
  rw [hbase cls hcls hends] at hkey
  exact List.map_eq_nil_iff.mp (List.append_left_eq_self.mp hkey)

theorem formClass_nil_ne_baseClass (s : Settings) : formClass s [] ≠ baseClass := by
  intro heq
  have hends : ("\\Data\\Data" : Text) <:+ formClass s [] := by
    have hspace : s.qualify ["Data"] = s.rootNamespace ++ "\\" ++ "Data" := rfl
    rw [formClass, hspace, List.append_assoc, List.append_assoc, List.append_assoc]
    exact List.suffix_append _ _
  rw [heq] at hends
  exact absurd hends (by decide)

theorem formClass_inj {form form' : Text} :
    formClass s form = formClass s form' ↔ form = form' := by
  unfold formClass
  rw [List.append_cancel_left_eq, List.append_cancel_right_eq]

/-- A data object has no two classes of one short name exactly when its data classes have names of
their own, whatever their case, and its enums are not called like other classes. -/
theorem unambiguous_imports_iff (hs : s.Accepted) (hps : properties s e = .ok ps) :
    Unambiguous (declaredClass s e) (imports ps).names ↔ Apart s e := by
  have hmem {cls : Text} : cls ∈ declaredClass s e :: (imports ps).names ↔
      Needs s e cls ∨ cls = declaredClass s e := by
    rw [List.mem_cons, mem_names_iff_needs hs hps, or_comm]
  rw [unambiguous_iff]
  constructor
  · intro h
    have hshown {form : Text} (hform : Shows s e form) :
        formClass s form ∈ declaredClass s e :: (imports ps).names := hmem.mpr hform.needs_or_eq
    refine ⟨fun form hform hnil => ?_, fun form form' hform hform' hspelled => ?_,
      fun c hc hbody henum own hown cls hcls hsame => ?_⟩
    · subst hnil
      have hkey : SameShort (formClass s []) baseClass := by
        show shortKey (formClass s []) = shortKey baseClass
        rw [shortKey_formClass s hform]
        decide
      exact formClass_nil_ne_baseClass s
        (h _ (hshown hform) _ (hmem.mpr (Or.inl .base)) hkey)
    · have hkey : SameShort (formClass s form) (formClass s form') := by
        show shortKey (formClass s form) = shortKey (formClass s form')
        rw [shortKey_formClass s hform, shortKey_formClass s hform', hspelled]
      exact formClass_inj.mp (h _ (hshown hform) _ (hshown hform') hkey)
    · exact h _ (hmem.mpr (Or.inl (.enumClass hc hbody henum hown))) _ (hmem.mpr hcls) hsame
  · intro h a ha b hb hsame
    rw [hmem] at ha hb
    rcases class_cases ha with hfa | ⟨c, hc, hbody, henum, hown⟩ | ⟨form, hform, rfl⟩
    · rcases class_cases hb with hfb | ⟨c, hc, hbody, henum, hown⟩ | ⟨form, hform, rfl⟩
      · exact frameworkClasses_toldApart a hfa b hfb hsame
      · exact (h.enums c hc hbody henum b hown a ha hsame.symm).symm
      · exact absurd (form_eq_nil_of_sameShort hform hfa hsame.symm) (h.named form hform)
    · exact h.enums c hc hbody henum a hown b hb hsame
    · rcases class_cases hb with hfb | ⟨c, hc, hbody, henum, hown⟩ | ⟨form', hform', rfl⟩
      · exact absurd (form_eq_nil_of_sameShort hform hfb hsame) (h.named form hform)
      · exact (h.enums c hc hbody henum b hown _ ha hsame.symm).symm
      · have hkey : form.map lowerAscii ++ "data" = form'.map lowerAscii ++ "data" := by
          rw [← shortKey_formClass s hform, ← shortKey_formClass s hform']
          exact hsame
        rw [h.spelled form form' hform hform' (List.append_cancel_right hkey)]

end DataFile

/-! ### Schemas -/

namespace Job

variable {site : Site} {s : Settings} {tree : Tree} {schema : Schema} {found : Report}

/-- The class that the file of a job declares. -/
def declaredClass (s : Settings) : Job → Text
  | controller c _ => ControllerFile.declaredClass s c
  | data e => DataFile.declaredClass s e

/-- The names that the file of a job imports. A data object imports what its properties need, and
has no file when they cannot be written. -/
inductive Uses (look : Lookup) (s : Settings) : Job → List Text → Prop
  | ofController (c : Controller) (e : Option Entity) : Uses look s (controller c e)
      (ControllerFile.imports s c e (ControllerFile.renderedVerbs look s c)).names
  | ofData {e : Entity} {ps : List DataFile.Property} (hps : DataFile.properties s e = .ok ps) :
    Uses look s (data e) (DataFile.imports ps).names

/-- What keeps the short names in the file of a job apart. -/
def Apart (look : Lookup) (s : Settings) : Job → Prop
  | controller c e => ControllerFile.Apart s c e (ControllerFile.renderedVerbs look s c)
  | data e => (∃ ps, DataFile.properties s e = .ok ps) → DataFile.Apart s e

/-- A file is filled with the class that a job declares and with `use` lines for what it
imports. -/
def FilledFrom (look : Lookup) (s : Settings) (job : Job) (a : Artifact) : Prop :=
  ∃ names stub slots space cls, Uses look s job names ∧ look job.classStub = .ok (some stub) ∧
    a.content = Stub.render stub slots ∧ slots.value? "namespace" = some space ∧
    slots.value? "class" = some cls ∧ space ++ "\\" ++ cls = job.declaredClass s ∧
    slots.value? "imports" = some (Imports.useLines names)

theorem filledFrom_of_made {look : Lookup} {now : Moment} {job : Job} {a : Artifact}
    (h : job.outcome look s now = .ok (.made a)) : FilledFrom look s job a := by
  cases job with
  | data e =>
    obtain ⟨stub, ps, hstub, hps, rfl⟩ := outcome_data_made h
    exact ⟨_, stub, DataFile.classSlots s e ps, _, _, .ofData hps, hstub, rfl, rfl, rfl, rfl, rfl⟩
  | controller c e =>
    obtain ⟨stub, methods, hstub, hmethods, rfl⟩ := outcome_controller_made h
    refine ⟨_, stub, ControllerFile.classSlots s c e methods, _, _, .ofController c e, hstub, rfl,
      rfl, rfl, rfl, ?_⟩
    rw [ControllerFile.classSlots_imports, methodTexts_verbs hmethods]
    rfl

/-- A controller is generated with the entity that its model name refers to. -/
theorem entity?_of_mem_all {c : Controller} {e : Option Entity}
    (h : controller c e ∈ all schema s) : schema.entity? c.modelName = e := by
  rw [all_eq] at h
  rcases List.mem_append.mp h with h | h
  · obtain ⟨-, c', -, heq⟩ := mem_controllerJobs.mp h
    cases heq
    rfl
  · obtain ⟨-, e', -, heq⟩ := mem_dataJobs.mp h
    cases heq

/-- The files of a schema without an error have no two classes of one short name exactly when
each of them keeps the names apart that its model, its related names and its enums lead to. These
are the names that the files which are made have in their `use` lines. -/
theorem files_unambiguous_iff (hs : s.Accepted)
    (hfull : Check.full tree site.cwd schema s = .ok found) (hvalid : found.isValid = true) :
    ((∀ job ∈ served site s tree (all schema s), ∀ names, Uses (lookup site s tree) s job names →
        Unambiguous (job.declaredClass s) names) ↔
      ∀ job ∈ served site s tree (all schema s), job.Apart (lookup site s tree) s) ∧
      ∀ job ∈ served site s tree (all schema s), ∀ a,
        job.outcome (lookup site s tree) s site.now = .ok (.made a) →
          FilledFrom (lookup site s tree) s job a := by
  refine ⟨forall₂_congr fun job hjob => ?_, fun job _ a => filledFrom_of_made⟩
  cases job with
  | data e =>
    constructor
    · rintro h ⟨ps, hps⟩
      exact (DataFile.unambiguous_imports_iff hs hps).mp (h _ (.ofData hps))
    · intro h names huses
      cases huses with
      | ofData hps => exact (DataFile.unambiguous_imports_iff hs hps).mpr (h ⟨_, hps⟩)
  | controller c e =>
    have hjobs : (∀ names, Uses (lookup site s tree) s (controller c e) names →
        Unambiguous ((controller c e).declaredClass s) names) ↔
          Unambiguous (ControllerFile.declaredClass s c)
            (ControllerFile.imports s c e
              (ControllerFile.renderedVerbs (lookup site s tree) s c)).names := by
      constructor
      · exact fun h => h _ (.ofController c e)
      · intro h names huses
        cases huses
        exact h
    refine hjobs.trans (ControllerFile.unambiguous_imports_iff hs fun he => ?_)
    obtain ⟨ent, rfl⟩ := Option.isSome_iff_exists.mp he
    have hent : schema.entity? c.modelName = some ent := entity?_of_mem_all (mem_served.mp hjob).1
    obtain ⟨hmem, hrefers⟩ := Schema.entity?_some hent
    have hname := Check.entityName_ne_nil hfull hvalid hmem
    intro hnil
    have hmodel : c.modelName = [] := by
      rw [← List.length_eq_zero_iff, Controller.modelName, entityForm, ← Words.length_studly_studly,
        ← entityForm, ← Controller.modelName, hnil]
      rfl
    rw [hmodel] at hrefers
    rcases hrefers with hno | ⟨-, hno⟩
    · exact hname hno
    · exact hname (hno.trans rfl)

/-- A class stub that shows the class and its imports. -/
def namingStub : Text := Stub.slot "imports" ++ "\nclass " ++ Stub.slot "class"

/-- Files with class stubs of one's own and no others. -/
def namingTree : Tree :=
  ⟨[(["stubs"], .directory), (["stubs", DataFile.classStub], .file (utf8 namingStub)),
    (["stubs", ControllerFile.classStub], .file (utf8 namingStub))]⟩

/-- A model that is called like a class of the framework and has an enum that is called like its
own data class. -/
def response : Entity :=
  { name := "JsonResponse", columns := [{ name := "data", dataType := "enum" }] }

def responses : Controller := { name := "JsonResponse", methods := ["index"] }

def sharedNames : Schema := { entities := [response], controllers := [responses] }

theorem sharedNames_ambiguous :
    (∃ found, Check.full namingTree plainSite.cwd sharedNames {} = .ok found ∧
        found.isValid = true) ∧
      ∀ job ∈ [controller responses (some response), data response],
        job ∈ served plainSite {} namingTree (all sharedNames {}) ∧
          ∃ names, Uses (lookup plainSite {} namingTree) {} job names ∧
            ¬Unambiguous (job.declaredClass {}) names := by
  have hcontroller : controller responses (some response) ∈
      served plainSite {} namingTree (all sharedNames {}) :=
    mem_served.mpr ⟨List.mem_cons_self, by decide +kernel⟩
  have hdata : data response ∈ served plainSite {} namingTree (all sharedNames {}) :=
    mem_served.mpr ⟨List.mem_cons_of_mem _ List.mem_cons_self, by decide +kernel⟩
  obtain ⟨ps, hps⟩ : ∃ ps, DataFile.properties {} response = .ok ps := ⟨_, rfl⟩
  refine ⟨⟨_, rfl, by decide +kernel⟩,
    List.forall_mem_cons.mpr ⟨⟨hcontroller, _, .ofController _ _, fun h => ?_⟩,
      List.forall_mem_singleton.mpr ⟨hdata, _, .ofData hps, fun h => ?_⟩⟩⟩
  · have hname {cls : Text} := @ControllerFile.mem_names_iff_needs {} responses (some response)
      (ControllerFile.renderedVerbs (lookup plainSite {} namingTree) {} responses)
      Settings.accepted_default cls
    have heq : qualifiedModel {} responses.modelName = ControllerFile.jsonResponse :=
      h.imported _ (hname.mpr (.model rfl)) _ (hname.mpr .response) (by decide +kernel)
    exact absurd heq (by decide +kernel)
  · have hname {cls : Text} : cls ∈ (DataFile.imports ps).names ↔ _ :=
      DataFile.mem_names_iff_needs Settings.accepted_default hps
    have heq : DataFile.declaredClass {} response = "App\\Enums\\JsonResponseData" :=
      h.own _ (hname.mpr (.enumClass List.mem_cons_self rfl rfl rfl)) (by decide +kernel)
    exact absurd heq (by decide +kernel)

/-- A controller, an enum and a data class with names of their own. -/
def reply : Entity :=
  { name := "Reply", columns := [{ name := "title" }, { name := "status", dataType := "enum" }],
    relationships := [(.belongsTo, ["Reply"])] }

def ownNames : Schema :=
  { entities := [reply], controllers := [{ name := "Reply", methods := ["index"] }] }

theorem ownNames_unambiguous :
    ∃ found, Check.full namingTree plainSite.cwd ownNames {} = .ok found ∧
      found.isValid = true ∧
        (∀ job ∈ served plainSite {} namingTree (all ownNames {}), ∀ names,
          Uses (lookup plainSite {} namingTree) {} job names →
            Unambiguous (job.declaredClass {}) names) ∧
        ∀ job ∈ served plainSite {} namingTree (all ownNames {}), ∀ a,
          job.outcome (lookup plainSite {} namingTree) {} plainSite.now = .ok (.made a) →
            FilledFrom (lookup plainSite {} namingTree) {} job a := by
  obtain ⟨found, hfull, hvalid⟩ : ∃ found, Check.full namingTree plainSite.cwd ownNames {} =
      .ok found ∧ found.isValid = true := ⟨_, rfl, by decide +kernel⟩
  obtain ⟨hnames, hfilled⟩ :=
    @files_unambiguous_iff plainSite _ _ _ _ Settings.accepted_default hfull hvalid
  refine ⟨found, hfull, hvalid, hnames.mpr fun job hjob => ?_, hfilled⟩
  have hall : job ∈ all ownNames {} := (mem_served.mp hjob).1
  rcases List.mem_cons.mp hall with rfl | hall
  · have hmodel : ∀ cls ∈ ControllerFile.frameworkClasses {},
        ¬SameShort (qualifiedModel {} "Reply") cls := by
      decide +kernel
    exact ⟨fun _ cls hcls _ hsame => absurd hsame (hmodel cls hcls), by decide⟩
  rw [List.mem_singleton.mp hall]
  have hform : ∀ form, DataFile.Shows {} reply form → form = ("Reply" : Text) := by
    rintro form (rfl | ⟨r, ⟨before, after, hr, -⟩, rfl⟩)
    · decide
    · have hmem : r ∈ reply.related := by simp [hr]
      rw [List.mem_singleton.mp hmem]
      decide
  rintro -
  refine ⟨fun form h => ?_, fun form form' h h' _ => ?_,
    fun c hc _ henum own hown cls hcls hsame => ?_⟩
  · rw [hform form h]
    decide
  · rw [hform form h, hform form' h']
  · have hstatus : ∀ c ∈ reply.columns, c.isEnum = true → ∀ own,
        ClassNames.enumClass {} c reply.name = .ok own → own = "App\\Enums\\Status" := by
      intro c hc henum own hown
      rcases List.mem_cons.mp hc with rfl | hc
      · cases henum
      · obtain rfl := List.mem_singleton.mp hc
        cases hown
        decide
    have hother : ∀ cls ∈ DataFile.formClass {} "Reply" :: DataFile.frameworkClasses,
        ¬SameShort "App\\Enums\\Status" cls := by
      decide +kernel
    obtain rfl := hstatus c hc henum own hown
    rcases DataFile.class_cases hcls with
      hframework | ⟨c', hc', -, henum', hown'⟩ | ⟨form, h, rfl⟩
    · exact absurd hsame (hother cls (List.mem_cons_of_mem _ hframework))
    · exact (hstatus c' hc' henum' cls hown').symm
    · rw [hform form h] at hsame
      exact absurd hsame (hother _ List.mem_cons_self)

end Job

end ApiScaffold
