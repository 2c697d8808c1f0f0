import ApiScaffold.Proofs.CapitalizedNames
import ApiScaffold.Proofs.GeneratedNames
import ApiScaffold.Proofs.ShortNames

/-!
# Which entity a controller file refers to

A controller is rendered with the entity that its model name refers to, but the file is written
with the model name, not with the name of the entity. The name is capitalised once more for the
class of the model, and made singular once more for the class of the data object. The main theorem
says exactly when the file refers to the entity itself. Where it names the model right, it names
the data object right too.
-/
namespace ApiScaffold

open Text

namespace Stub.Slots

variable {slots : Slots} {name other value : Text}

theorem value?_cons_of_ne (h : other ≠ name) :
    value? ((other, value) :: slots) name = value? slots name := by
  rw [value?, value?, List.reverse_cons, List.find?_append, List.find?_singleton,
    if_neg (by simpa using h), Option.or_none]

theorem value?_concat : value? (slots ++ [(name, value)]) name = some value := by
  rw [value?, List.reverse_append, List.reverse_singleton, List.singleton_append,
    List.find?_cons_of_pos (by simp)]
  rfl

end Stub.Slots

open ClassNames

theorem DataFile.short_declaredClass (s : Settings) (e : Entity) :
    short (declaredClass s e) = dataClass e.name :=
  short_append (backslash_not_mem_dataClass e.name) _

namespace ControllerFile

variable {look : Lookup} {s : Settings} {c : Controller} {e : Entity} {verb : Text}
  {lines : List Text} {methods : List (Text × Text)}

/-! ### The values that the stubs are filled in with -/

theorem classSlots_modelClass (e : Option Entity) :
    (classSlots s c e methods).value? "modelClass" =
      some (Words.studly c.modelName ++ "::class") :=
  rfl

theorem methodSlots_modelClass :
    (methodSlots c verb lines).value? "modelClass" = some (Words.studly c.modelName) := by
  have hverb : verb ++ "Attributes" ≠ ("modelClass" : Text) :=
    attributesName_ne verb (by decide)
  refine (Stub.Slots.value?_cons_of_ne (by decide)).trans
    (Stub.Slots.value?_cons fun slot hslot => ?_)
  rcases List.mem_append.mp hslot with hslot | hslot
  · simp only [List.mem_cons, List.not_mem_nil, or_false] at hslot
    rcases hslot with rfl | rfl | rfl
    · show ("modelName" : Text) ≠ "modelClass"
      decide
    · show ("resourceClass" : Text) ≠ "modelClass"
      decide
    · exact hverb
  · split_ifs at hslot
    · rw [List.mem_singleton.mp hslot]
      show ("dataClass" : Text) ≠ "modelClass"
      decide
    · cases hslot

theorem methodSlots_dataClass (h : hasBody verb = true) :
    (methodSlots c verb lines).value? "dataClass" = some (dataClass c.modelName) := by
  rw [methodSlots, if_pos h]
  exact Stub.Slots.value?_concat

/-- A file is the class stub and the stubs of its methods, filled in with their values. -/
structure FilledIn (look : Lookup) (s : Settings) (c : Controller) (e : Option Entity)
    (methods : List (Text × Text)) (a : Artifact) : Prop where
  content : ∃ stub, look classStub = .ok (some stub) ∧
    a.content = Stub.render stub (classSlots s c e methods)
  texts : ∀ m ∈ methods, ∃ stub lines, look (methodStub m.1) = .ok (some stub) ∧
    m.2 = Stub.render stub (methodSlots c m.1 lines)

theorem mem_methodTexts {now : Moment} {e : Option Entity} {verbs : List Text}
    (h : Job.methodTexts look s now c e verbs = .ok methods) :
    ∀ m ∈ methods, ∃ stub lines, look (methodStub m.1) = .ok (some stub) ∧
      m.2 = Stub.render stub (methodSlots c m.1 lines) := by
  induction verbs generalizing methods with
  | nil =>
    cases h
    simp
  | cons verb rest ih =>
    obtain ⟨-, hrest⟩ | ⟨stub, text, more, hlook, htext, hmore, rfl⟩ :=
      Job.methodTexts_cons_eq_ok h
    · exact ih hrest
    · refine List.forall_mem_cons.mpr ⟨⟨stub, ?_⟩, ih hmore⟩
      rw [methodText_eq] at htext
      obtain ⟨lines, -, hlines⟩ := Except.map_eq_ok_iff.mp htext
      exact ⟨lines, hlook, hlines.symm⟩

/-! ### References to an entity -/

/-- The methods with a body take the data object that the entity declares, and it is imported. -/
def TakesData (s : Settings) (c : Controller) (e : Entity) (methods : List (Text × Text)) : Prop :=
  ∀ m ∈ methods, hasBody m.1 = true →
    DataFile.declaredClass s e ∈ (imports s c (some e) (methods.map (·.1))).names ∧
      ∀ lines, (methodSlots c m.1 lines).value? "dataClass" =
        some (short (DataFile.declaredClass s e))

/-- The model that is imported, and that the class and every method name, is called like the
entity, and the methods take the data object of the entity. -/
structure RefersTo (s : Settings) (c : Controller) (e : Entity) (methods : List (Text × Text)) :
    Prop where
  imported : qualifiedModel s c.modelName ∈ (imports s c (some e) (methods.map (·.1))).names ∧
    short (qualifiedModel s c.modelName) = e.name
  inClass : (classSlots s c (some e) methods).value? "modelClass" = some (e.name ++ "::class")
  inMethods : ∀ m ∈ methods, ∀ lines,
    (methodSlots c m.1 lines).value? "modelClass" = some e.name
  data : TakesData s c e methods

theorem takesData_iff (hs : s.Accepted) :
    TakesData s c e methods ↔
      ((∃ m ∈ methods, hasBody m.1 = true) → entityForm c.modelName = entityForm e.name) := by
  constructor
  · rintro h ⟨m, hm, hbody⟩
    obtain ⟨-, hslot⟩ := h m hm hbody
    have hclass : dataClass c.modelName = dataClass e.name := by
      have hvalue := hslot []
      rw [methodSlots_dataClass hbody, DataFile.short_declaredClass] at hvalue
      exact Option.some.inj hvalue
    exact List.append_cancel_right hclass
  · intro h m hm hbody
    have hform := h ⟨m, hm, hbody⟩
    refine ⟨?_, fun lines => ?_⟩
    · rw [← DataFile.qualifiedData_eq_declaredClass.mpr hform]
      exact (mem_names_iff_needs hs).mpr
        (.data (List.mem_map_of_mem hm) (hasBody_iff.mp hbody))
    · rw [methodSlots_dataClass hbody, DataFile.short_declaredClass, dataClass, hform, dataClass]

theorem refersTo_iff (hs : s.Accepted) (hname : e.name ≠ []) :
    RefersTo s c e methods ↔ Words.studly c.modelName = e.name ∧ TakesData s c e methods := by
  constructor
  · intro h
    have hclass := h.inClass
    rw [classSlots_modelClass, Option.some.injEq, List.append_cancel_right_eq] at hclass
    exact ⟨hclass, h.data⟩
  · rintro ⟨hmodel, hdata⟩
    have hne : Words.studly c.modelName ≠ [] := hmodel ▸ hname
    refine ⟨⟨?_, ?_⟩, ?_, fun m _ lines => ?_, hdata⟩
    · exact (mem_names_iff_needs hs).mpr (.model rfl)
    · rw [short_qualifiedModel s hne, hmodel]
    · rw [classSlots_modelClass, hmodel]
    · rw [methodSlots_modelClass, hmodel]

end ControllerFile

namespace Job

variable {site : Site} {s : Settings} {tree : Tree} {schema : Schema} {found : Report}
  {stubs stubs' : Stub.Repository} {c : Controller} {e : Entity} {a : Artifact}

theorem filledIn_of_render {e : Option Entity}
    (h : render site s tree stubs (controller c e) = .ok (.made a, stubs')) :
    ∃ methods, ControllerFile.FilledIn (stubs.answer tree site.cwd) s c e methods a := by
  have houtcome := render_answer site s tree (controller c e) stubs
  rw [h] at houtcome
  obtain ⟨stub, methods, hstub, hmethods, rfl⟩ := outcome_controller_made houtcome.symm
  exact ⟨methods, ⟨stub, hstub, rfl⟩, ControllerFile.mem_methodTexts hmethods⟩

/-- In a schema without an error, the file of a controller with an entity refers to the entity
exactly when its model name, capitalised once more, is the name of the entity. That is enough for
the data object, which is the right one more often. When the model name is the name of the entity
from the start, all that counts is whether it has an acronym. -/
theorem controller_refersTo_iff (hs : s.Accepted)
    (hfull : Check.full tree site.cwd schema s = .ok found) (hvalid : found.isValid = true)
    (hjob : controller c (some e) ∈ all schema s)
    (hmade : render site s tree stubs (controller c (some e)) = .ok (.made a, stubs')) :
    ∃ methods, ControllerFile.FilledIn (stubs.answer tree site.cwd) s c (some e) methods a ∧
      (ControllerFile.RefersTo s c e methods ↔ Words.studly c.modelName = e.name) ∧
      (ControllerFile.TakesData s c e methods ↔
        ((∃ m ∈ methods, ControllerFile.hasBody m.1 = true) →
          c.modelName = e.name ∨ entityForm e.name = e.name)) ∧
      (c.modelName = e.name →
        (ControllerFile.RefersTo s c e methods ↔ Words.hasAcronym e.name = false)) := by
  obtain ⟨methods, hfile⟩ := filledIn_of_render hmade
  obtain ⟨hmem, hrefers⟩ := Schema.entity?_some (entity?_of_mem_all hjob)
  have hname := Check.entityName_ne_nil hfull hvalid hmem
  -- The data object is found by the form of the model name.
  have hform : entityForm c.modelName = entityForm e.name ↔
      c.modelName = e.name ∨ entityForm e.name = e.name := by
    rcases hrefers with hsame | ⟨hno, hform⟩
    · rw [hsame]
      exact iff_of_true rfl (Or.inl rfl)
    · have hother : c.modelName ≠ e.name := fun heq =>
        hno (heq ▸ List.mem_map_of_mem hmem)
      rw [← hform, or_iff_right hother]
      exact eq_comm
  have hmodel : Words.studly c.modelName = e.name →
      c.modelName = e.name ∨ entityForm e.name = e.name := by
    intro hmodel
    rcases hrefers with hsame | ⟨-, hform⟩
    · exact Or.inl hsame.symm
    · right
      rw [← hmodel] at hform ⊢
      exact entityForm_of_eq_studly hform.symm
  have hdata : ControllerFile.TakesData s c e methods ↔ _ := ControllerFile.takesData_iff hs
  rw [hform] at hdata
  have hrefersTo : ControllerFile.RefersTo s c e methods ↔ Words.studly c.modelName = e.name := by
    rw [ControllerFile.refersTo_iff hs hname, hdata]
    exact and_iff_left_of_imp fun h _ => hmodel h
  refine ⟨methods, hfile, hrefersTo, hdata, fun hsame => ?_⟩
  rw [hrefersTo, ← hsame]
  exact Words.studly_studly_eq_iff _

theorem exists_made_of_any {x : Except Failure (Outcome × Stub.Repository)}
    (h : (x.toOption.any fun p => p.1.file?.isSome) = true) :
    ∃ a stubs', x = .ok (.made a, stubs') := by
  obtain ⟨⟨o, stubs'⟩, hx, ho⟩ := exists_ok_of_any h
  cases o with
  | made a => exact ⟨a, stubs', hx⟩
  | lacking stub => cases ho

/-- Files with stubs of one's own for a controller and for its method that stores. -/
def storingTree : Tree :=
  ⟨[(["stubs"], .directory), (["stubs", ControllerFile.classStub], .file (utf8 namingStub)),
    (["stubs", ControllerFile.methodStub "store"], .file (utf8 (Stub.slot "dataClass")))]⟩

/-- An entity that is found by a plural of its plural. -/
def datum : Entity := { name := "Datum", columns := [{ name := "title" }] }

def datas : Controller := { name := "Datas", methods := ["store"] }

def measurements : Schema := { entities := [datum], controllers := [datas] }

theorem datum_called_data :
    (∃ found, Check.full storingTree plainSite.cwd measurements {} = .ok found ∧
        found.isValid = true) ∧
      controller datas (some datum) ∈ all measurements {} ∧
      ∃ a stubs' methods, render plainSite {} storingTree (repository plainSite {})
          (controller datas (some datum)) = .ok (.made a, stubs') ∧
        ControllerFile.FilledIn ((repository plainSite {}).answer storingTree plainSite.cwd) {}
          datas (some datum) methods a ∧
        ¬ControllerFile.RefersTo {} datas datum methods := by
  obtain ⟨a, stubs', hmade⟩ : ∃ a stubs', render plainSite {} storingTree (repository plainSite {})
      (controller datas (some datum)) = .ok (.made a, stubs') :=
    exists_made_of_any (by decide +kernel)
  obtain ⟨methods, hfile⟩ := filledIn_of_render hmade
  refine ⟨exists_ok_of_any (by decide +kernel), List.mem_cons_self, a, stubs', methods, hmade,
    hfile, fun h => ?_⟩
  have hname : Words.studly datas.modelName = datum.name :=
    ((ControllerFile.refersTo_iff Settings.accepted_default (by decide)).mp h).1
  exact absurd hname (by decide)

/-- An entity with a controller in the plural and in other spelling. -/
def blogPost : Entity := { name := "BlogPost", columns := [{ name := "title" }] }

def storedPosts : Controller := { name := "blog_posts", methods := ["store", "index"] }

def blog : Schema := { entities := [blogPost], controllers := [storedPosts] }

theorem blogPost_refersTo :
    ∃ found, Check.full storingTree plainSite.cwd blog {} = .ok found ∧ found.isValid = true ∧
      controller storedPosts (some blogPost) ∈ all blog {} ∧
      ∃ a stubs' methods, render plainSite {} storingTree (repository plainSite {})
          (controller storedPosts (some blogPost)) = .ok (.made a, stubs') ∧
        ControllerFile.FilledIn ((repository plainSite {}).answer storingTree plainSite.cwd) {}
          storedPosts (some blogPost) methods a ∧
        ControllerFile.RefersTo {} storedPosts blogPost methods := by
  obtain ⟨found, hfull, hvalid⟩ : ∃ found, Check.full storingTree plainSite.cwd blog {} =
      .ok found ∧ found.isValid = true := exists_ok_of_any (by decide +kernel)
  obtain ⟨a, stubs', hmade⟩ : ∃ a stubs', render plainSite {} storingTree (repository plainSite {})
      (controller storedPosts (some blogPost)) = .ok (.made a, stubs') :=
    exists_made_of_any (by decide +kernel)
  have hjob : controller storedPosts (some blogPost) ∈ all blog {} := List.mem_cons_self
  obtain ⟨methods, hfile, hrefersTo, -⟩ :=
    controller_refersTo_iff Settings.accepted_default hfull hvalid hjob hmade
  exact ⟨found, hfull, hvalid, hjob, a, stubs', methods, hmade, hfile, hrefersTo.mpr (by decide)⟩

end Job

end ApiScaffold
