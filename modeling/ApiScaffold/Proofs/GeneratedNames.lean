import ApiScaffold.Proofs.Findings
import ApiScaffold.Proofs.FirstCharacters
import ApiScaffold.Proofs.ImportedClasses
import ApiScaffold.Proofs.RelatedData

/-!
# Names in generated files

The names that a generated file declares: its class, the properties of a data object, and the
variables that the packaged method stubs have for the record of a controller. A schema without an
error can still lead to names that are no identifiers, because the checks look at the names of
entities and columns alone and before these are changed. The main theorem says exactly when all
names are identifiers, and that the files that are made show these names. Stubs of the user's own
are not looked into.
-/
namespace ApiScaffold

open Text Words

namespace Stub

/-- A value counts when no later one is for the same name. -/
theorem Slots.value?_cons {name value : Text} {slots : Slots} (h : ∀ slot ∈ slots, slot.1 ≠ name) :
    Slots.value? ((name, value) :: slots) name = some value := by
  have hnone : slots.reverse.find? (fun slot => slot.1 = name) = none := by
    simpa using fun a b hab => h (a, b) hab
  rw [Slots.value?, List.reverse_cons, List.find?_append, hnone, Option.none_or,
    List.find?_cons_of_pos (by simp)]
  rfl

/-- The tokens of a template that stand right behind a dollar sign. -/
def variableTokens : List Piece → List Piece
  | .char '$' :: .token name raw :: rest => .token name raw :: variableTokens rest
  | _ :: rest => variableTokens rest
  | [] => []

/-- The variables of a template when it is filled in. -/
def variableNames (template : Text) (slots : Slots) : List Text :=
  (variableTokens (pieces template)).map (Piece.fill slots)

/-- The variables stand in the text, each behind a dollar sign. -/
theorem variableNames_in_text {template name : Text} {slots : Slots}
    (h : name ∈ variableNames template slots) :
    ∃ front back, render template slots = front ++ '$' :: (name ++ back) := by
  obtain ⟨piece, hpiece, rfl⟩ := List.mem_map.mp h
  unfold render
  generalize pieces template = cut at hpiece ⊢
  fun_induction variableTokens cut with
  | case1 token raw rest ih =>
    rcases List.mem_cons.mp hpiece with rfl | hpiece
    · exact ⟨[], rest.flatMap (Piece.fill slots), by simp [Piece.fill]⟩
    · obtain ⟨front, back, heq⟩ := ih hpiece
      refine ⟨'$' :: (Piece.token token raw).fill slots ++ front, back, ?_⟩
      rw [List.flatMap_cons, List.flatMap_cons, heq]
      simp [Piece.fill]
  | case2 other rest _ ih =>
    obtain ⟨front, back, heq⟩ := ih hpiece
    refine ⟨other.fill slots ++ front, back, ?_⟩
    rw [List.flatMap_cons, heq]
    simp
  | case3 => cases hpiece

end Stub

theorem Text.infix_join (separator : Text) {parts : List Text} {part : Text} (h : part ∈ parts) :
    part <:+: join separator parts := by
  induction parts with
  | nil => cases h
  | cons first rest ih =>
    cases rest with
    | nil =>
      obtain rfl := List.mem_singleton.mp h
      exact List.infix_refl _
    | cons second rest =>
      rw [join_cons_cons]
      rcases List.mem_cons.mp h with rfl | h
      · exact ⟨[], separator ++ join separator (second :: rest), by simp⟩
      · exact (ih h).trans (List.suffix_append _ _).isInfix

namespace ControllerFile

/-- The values that a method stub is filled in with, from the lines of its attributes. -/
def methodSlots (c : Controller) (verb : Text) (lines : List Text) : Stub.Slots :=
  let model := c.modelName
  let common : Stub.Slots :=
    [("modelVariable", Words.camel model), ("modelClass", Words.studly model),
     ("modelName", Words.human model), ("resourceClass", ClassNames.resourceClass model),
     (verb ++ "Attributes", attributeBlock lines)]
  let ofBody : Stub.Slots :=
    if hasBody verb then [("dataClass", ClassNames.dataClass model)] else []
  common ++ ofBody

theorem methodText_eq (s : Settings) (now : Moment) (c : Controller) (e : Option Entity)
    (verb stub : Text) :
    methodText s now c e verb stub =
      (attributeLines s now verb c.modelName e).map fun lines =>
        Stub.render stub (methodSlots c verb lines) :=
  rfl

/-- The name of the value for the attributes of a method ends in the same way for every action. -/
theorem attributesName_ne (verb : Text) {name : Text} (h : ¬("Attributes" : Text) <:+ name) :
    verb ++ "Attributes" ≠ name := by
  rintro rfl
  exact h (List.suffix_append _ _)

theorem methodSlots_modelVariable (c : Controller) (verb : Text) (lines : List Text) :
    (methodSlots c verb lines).value? "modelVariable" = some (Words.camel c.modelName) := by
  have hverb : verb ++ "Attributes" ≠ ("modelVariable" : Text) :=
    attributesName_ne verb (by decide)
  refine Stub.Slots.value?_cons fun slot hslot => ?_
  rcases List.mem_append.mp hslot with hslot | hslot
  · simp only [List.mem_cons, List.not_mem_nil, or_false] at hslot
    rcases hslot with rfl | rfl | rfl | rfl
    · dsimp only
      decide
    · dsimp only
      decide
    · dsimp only
      decide
    · exact hverb
  · split_ifs at hslot
    · rw [List.mem_singleton.mp hslot]
      dsimp only
      decide
    · cases hslot

theorem text_infix_methodBlock {texts : List Text} {text : Text} (h : text ∈ texts) :
    text <:+: methodBlock texts := by
  unfold methodBlock
  rw [if_neg (List.ne_nil_of_mem h)]
  exact (infix_join _ h).trans (List.suffix_append _ _).isInfix

/-- Whether a piece is the token for the variable of the record. -/
def isModelVariable : Stub.Piece → Bool
  | .token name _ => name = ("modelVariable" : Text)
  | .char _ => false

/-- The packaged method stubs have variables for the record, and no other token is one. -/
theorem packaged_variableTokens : ∀ entry ∈ Stub.packaged,
    beginsWith "api-controller.method." entry.1 = true →
      Stub.variableTokens (Stub.pieces entry.2) ≠ [] ∧
        (Stub.variableTokens (Stub.pieces entry.2)).all isModelVariable = true := by
  -- The characters of a literal are slow to compute, so they are written out first.
  unfold Stub.packaged Stub.storeMethod Stub.updateMethod Stub.destroyMethod Stub.line Stub.slot
  repeat rw [String.toList_ofList]
  decide +kernel

theorem mem_variableNames {c : Controller} {verb stub name : Text} {lines : List Text}
    (h : (methodStub verb, stub) ∈ Stub.packaged) :
    name ∈ Stub.variableNames stub (methodSlots c verb lines) ↔ name = Words.camel c.modelName := by
  have hstub : beginsWith "api-controller.method." (methodStub verb) = true :=
    List.isPrefixOf_iff_prefix.mpr ⟨verb ++ ".stub", (List.append_assoc _ _ _).symm⟩
  obtain ⟨hsome, hall⟩ := packaged_variableTokens _ h hstub
  have hfill : ∀ piece ∈ Stub.variableTokens (Stub.pieces stub),
      piece.fill (methodSlots c verb lines) = Words.camel c.modelName := by
    intro piece hpiece
    have hmodel := List.all_eq_true.mp hall piece hpiece
    cases piece with
    | char _ => cases hmodel
    | token name raw =>
      have hname : name = "modelVariable" := of_decide_eq_true hmodel
      have hvalue := methodSlots_modelVariable c verb lines
      rw [← hname] at hvalue
      exact congrArg (Option.getD · raw) hvalue
  unfold Stub.variableNames
  rw [List.map_congr_left hfill, List.map_const']
  simp [hsome]

end ControllerFile

theorem beginsWithDigit_entityForm (name : Text) :
    beginsWithDigit (entityForm name) = beginsWithDigit name := by
  rw [entityForm, beginsWithDigit_studly, Inflection.beginsWithDigit_singular]

namespace Controller

theorem beginsWithDigit_stem (c : Controller) :
    beginsWithDigit c.stem = beginsWithDigit c.name := by
  unfold stem
  split_ifs with h
  · obtain ⟨front, hfront⟩ := List.isSuffixOf_iff_suffix.mp (Bool.and_eq_true_iff.mp h).1
    have hdrop : dropEnd classSuffix.length (front ++ classSuffix) = front := by
      unfold dropEnd
      rw [List.length_append, Nat.add_sub_cancel, List.take_left]
    rw [← hfront, hdrop, beginsWithDigit_append_letters front rfl]
  · rfl

theorem isIdentifier_className (c : Controller) :
    isIdentifier c.className = true ↔ beginsWithDigit c.name = false := by
  rw [className, isIdentifier_studly_append _ rfl (by decide), beginsWithDigit_stem]

theorem isIdentifier_variable (c : Controller) :
    isIdentifier (Words.camel c.modelName) = true ↔
      c.modelName ≠ [] ∧ beginsWithDigit c.name = false := by
  rw [isIdentifier_camel, modelName, beginsWithDigit_entityForm, beginsWithDigit_stem, entityForm,
    Ne, camel_studly_eq_nil]

end Controller

theorem ClassNames.isIdentifier_dataClass (name : Text) :
    isIdentifier (dataClass name) = true ↔ beginsWithDigit name = false := by
  rw [dataClass, entityForm, isIdentifier_studly_append _ rfl (by decide),
    Inflection.beginsWithDigit_singular]

theorem ClassNames.relationshipProperty_alnum (related : Text) (kind : RelationshipKind) :
    ∀ c ∈ relationshipProperty related kind, isAsciiAlnum c = true :=
  camel_alnum _

theorem ClassNames.beginsWithDigit_relationshipProperty (related : Text)
    (kind : RelationshipKind) :
    beginsWithDigit (relationshipProperty related kind) = beginsWithDigit related := by
  rw [relationshipProperty, beginsWithDigit_camel]
  split_ifs
  · exact Inflection.beginsWithDigit_plural related
  · exact Inflection.beginsWithDigit_singular related

/-- The property of a related name is an identifier unless it is blank or begins with a digit. -/
theorem ClassNames.isIdentifier_relationshipProperty (related : Text) (kind : RelationshipKind) :
    isIdentifier (relationshipProperty related kind) = true ↔
      relationshipProperty related kind ≠ [] ∧ beginsWithDigit related = false := by
  rw [isIdentifier_iff_of_alnum (relationshipProperty_alnum related kind),
    beginsWithDigit_relationshipProperty]

theorem lineFeed_mem {t : Text} (h : endsWith "\n" t = true) : '\n' ∈ t :=
  (List.isSuffixOf_iff_suffix.mp h).subset (List.mem_singleton_self _)

/-- A name that is read as a line is an identifier unless it ends in a line feed. -/
theorem isIdentifier_of_asLine {t : Text} (h : asLine isIdentifier t = true) :
    isIdentifier t = true ↔ endsWith "\n" t = false := by
  constructor
  · intro hid
    by_contra hends
    rw [Bool.not_eq_false] at hends
    exact absurd ((isIdentifier_iff.mp hid).2 _ (lineFeed_mem hends)) (by decide)
  · intro hends
    rcases Bool.or_eq_true_iff.mp h with hid | hline
    · exact hid
    · rw [hends, Bool.false_and] at hline
      cases hline

namespace Text

theorem mem_distinct {texts : List Text} {t : Text} : t ∈ distinct texts ↔ t ∈ texts := by
  induction texts with
  | nil => rfl
  | cons first rest ih =>
    rw [distinct, List.mem_cons, List.mem_cons, List.mem_filter, ih]
    by_cases hfirst : t = first <;> simp [hfirst]

theorem nodup_distinct (texts : List Text) : (distinct texts).Nodup := by
  induction texts with
  | nil => exact List.nodup_nil
  | cons first rest ih =>
    rw [distinct, List.nodup_cons]
    exact ⟨by simp, ih.filter _⟩

theorem distinct_filter (keep : Text → Bool) (texts : List Text) :
    distinct (texts.filter keep) = (distinct texts).filter keep := by
  induction texts with
  | nil => rfl
  | cons first rest ih =>
    cases hkeep : keep first with
    | true =>
      rw [List.filter_cons_of_pos hkeep, distinct, distinct, List.filter_cons_of_pos hkeep, ih,
        List.filter_comm]
    | false =>
      -- What is filtered out twice is filtered out by the first condition alone.
      have habsorb : ((distinct rest).filter (· ≠ first)).filter keep =
          (distinct rest).filter keep := by
        rw [List.filter_filter]
        refine List.filter_congr fun other _ => ?_
        by_cases hother : other = first <;> simp [hother, hkeep]
      rw [List.filter_cons_of_neg (by simp [hkeep]), ih, distinct,
        List.filter_cons_of_neg (by simp [hkeep]), habsorb]

end Text

namespace DataFile

section
variable {taken : List Text} {ps : List Property} {p : Property}

/-- The names of the properties that are kept are the first occurrences of the names that are
neither blank nor taken. -/
theorem fresh_names (taken : List Text) (ps : List Property) :
    (fresh taken ps).map (·.name) =
      distinct ((ps.map (·.name)).filter fun name => name ≠ [] ∧ name ∉ taken) := by
  induction ps generalizing taken with
  | nil => rfl
  | cons p rest ih =>
    unfold fresh
    rw [List.map_cons]
    split_ifs with hp
    · rw [List.contains_iff_mem] at hp
      have hout : ¬(p.name ≠ [] ∧ p.name ∉ taken) := by tauto
      rw [ih, List.filter_cons_of_neg (by simpa using hout)]
    · rw [List.contains_iff_mem, not_or] at hp
      rw [List.map_cons, ih, List.filter_cons_of_pos (by simpa using hp), distinct,
        ← distinct_filter, List.filter_filter]
      refine congrArg (p.name :: distinct ·) (List.filter_congr fun name _ => ?_)
      grind

/-- Every name that is neither blank nor taken gets a property. -/
theorem exists_mem_fresh (hp : p ∈ ps) (hblank : p.name ≠ []) (htaken : p.name ∉ taken) :
    ∃ q ∈ fresh taken ps, q.name = p.name := by
  refine List.mem_map.mp ?_
  rw [fresh_names, mem_distinct, List.mem_filter]
  exact ⟨List.mem_map_of_mem hp, decide_eq_true ⟨hblank, htaken⟩⟩

theorem ne_nil_of_mem_fresh (hp : p ∈ fresh taken ps) : p.name ≠ [] := by
  have hname : p.name ∈ (fresh taken ps).map (·.name) := List.mem_map_of_mem hp
  rw [fresh_names, mem_distinct, List.mem_filter] at hname
  exact (of_decide_eq_true hname.2).1

end

variable {s : Settings} {e : Entity} {ps : List Property}

theorem dollar_suffix (front name : Text) : '$' :: name <:+ front ++ " $" ++ name :=
  ⟨front ++ " ", by simp⟩

theorem propertyLines_suffix {first last tail : Text} (h : tail <:+ last) :
    tail <:+ propertyLines [first, last] :=
  h.trans (List.suffix_append _ _)

theorem propertyOf_name (c : Column) (cls : Option Text) : (propertyOf c cls).name = c.name := by
  unfold propertyOf
  dsimp only
  split
  · rfl
  · split_ifs <;> rfl

theorem propertyOf_text (c : Column) (cls : Option Text) :
    '$' :: (propertyOf c cls).name <:+ (propertyOf c cls).text := by
  rw [propertyOf_name]
  unfold propertyOf
  dsimp only
  split
  · exact propertyLines_suffix (dollar_suffix _ _)
  · split
    · exact propertyLines_suffix (dollar_suffix _ _)
    · exact dollar_suffix _ _

theorem relatedProperty_text (s : Settings) (r : RelationshipKind × Text) :
    '$' :: (relatedProperty s r).name <:+ (relatedProperty s r).text := by
  unfold relatedProperty
  dsimp only
  split_ifs
  · exact propertyLines_suffix (dollar_suffix "public array" _)
  · exact dollar_suffix _ _

/-- The text of a property ends in its name, with a dollar sign in front. -/
theorem property_text (h : properties s e = .ok ps) {p : Property} (hp : p ∈ ps) :
    '$' :: p.name <:+ p.text := by
  obtain ⟨columns, hcolumns, rfl⟩ := properties_eq_ok_iff.mp h
  rcases List.mem_append.mp hp with hp | hp
  · obtain ⟨c, -, -, heq⟩ := (mem_columnProperties_iff hcolumns).mp hp
    obtain ⟨own, -, rfl⟩ := Except.map_eq_ok_iff.mp heq
    exact propertyOf_text c own
  · obtain ⟨r, -, rfl⟩ := mem_relatedProperties.mp hp
    exact relatedProperty_text s r

theorem columnProperty_name {c : Column} {p : Property} (h : columnProperty s e c = .ok p) :
    p.name = c.name := by
  obtain ⟨own, -, rfl⟩ := Except.map_eq_ok_iff.mp h
  exact propertyOf_name c own

/-- The text of every property is among the properties of the file. -/
theorem text_infix_propertyBlock {p : Property} (hp : p ∈ ps) :
    p.text <:+: propertyBlock (ps.map (·.text)) := by
  have htext : p.text ∈ ps.map (·.text) := List.mem_map_of_mem hp
  unfold propertyBlock
  rw [if_neg (List.ne_nil_of_mem htext)]
  exact (infix_join _ htext).trans (List.prefix_append _ _).isInfix

/-- The related names of an entity with checked columns have identifiers for properties unless
one of them begins with a digit. -/
theorem isIdentifier_relatedProperties (s : Settings) {e : Entity}
    (hcolumns : ∀ c ∈ e.columns, asLine isIdentifier c.name = true) :
    (∀ p ∈ relatedProperties s e, isIdentifier p.name = true) ↔
      ∀ r ∈ e.related, beginsWithDigit r.2 = false := by
  constructor
  · intro h r hr
    by_contra hdigit
    have hbad : ¬isIdentifier (relatedProperty s r).name = true := fun hid =>
      hdigit ((ClassNames.isIdentifier_relationshipProperty r.2 r.1).mp hid).2
    have hblank : (relatedProperty s r).name ≠ [] := by
      intro hnil
      have hsame := ClassNames.beginsWithDigit_relationshipProperty r.2 r.1
      rw [show ClassNames.relationshipProperty r.2 r.1 = [] from hnil] at hsame
      exact hdigit hsame.symm
    -- A column of that name would be an identifier, since the name has no line feed.
    have htaken : (relatedProperty s r).name ∉ e.columnNames := by
      intro hmem
      obtain ⟨c, hc, hname⟩ := List.mem_map.mp hmem
      have hline : asLine isIdentifier (relatedProperty s r).name = true := hname ▸ hcolumns c hc
      refine hbad ((isIdentifier_of_asLine hline).mpr ?_)
      by_contra hends
      rw [Bool.not_eq_false] at hends
      have halnum := ClassNames.relationshipProperty_alnum r.2 r.1 _ (lineFeed_mem hends)
      exact absurd halnum (by decide)
    obtain ⟨q, hq, hname⟩ := exists_mem_fresh (List.mem_map_of_mem hr) hblank htaken
    exact hbad (hname ▸ h q hq)
  · intro h p hp
    obtain ⟨r, hr, rfl⟩ := mem_relatedProperties.mp hp
    exact (ClassNames.isIdentifier_relationshipProperty r.2 r.1).mpr
      ⟨ne_nil_of_mem_fresh hp, h r hr.1⟩

/-- The columns of a request body have identifiers for properties unless one of them, checked as
it was, ends in a line feed. -/
theorem isIdentifier_columnProperties (h : columnProperties s e = .ok ps)
    (hcolumns : ∀ c ∈ e.columns, asLine isIdentifier c.name = true) :
    (∀ p ∈ ps, isIdentifier p.name = true) ↔
      ∀ c ∈ e.columns, c.isBodyColumn = true → endsWith "\n" c.name = false := by
  constructor
  · intro hall c hc hbody
    obtain ⟨p, hp, heq⟩ := exists_mem_columnProperties h hc hbody
    rw [← isIdentifier_of_asLine (hcolumns c hc), ← columnProperty_name heq]
    exact hall p hp
  · intro hall p hp
    obtain ⟨c, hc, hbody, heq⟩ := (mem_columnProperties_iff h).mp hp
    rw [columnProperty_name heq, isIdentifier_of_asLine (hcolumns c hc)]
    exact hall c hc hbody

end DataFile

namespace Job

variable {site : Site} {s : Settings} {tree : Tree} {schema : Schema} {found : Report}

/-- The stub that is found for an action is the packaged one. -/
def HasPackagedMethod (site : Site) (s : Settings) (tree : Tree) (verb : Text) : Prop :=
  ∃ stub, lookup site s tree (ControllerFile.methodStub verb) = .ok (some stub) ∧
    (ControllerFile.methodStub verb, stub) ∈ Stub.packaged

/-- The names that the file of a job declares: its class, the properties of a data object and the
variables of packaged method stubs. -/
inductive Declares (site : Site) (s : Settings) (tree : Tree) : Job → Text → Prop
  | controllerClass (c : Controller) (e : Option Entity) :
    Declares site s tree (controller c e) c.className
  | variableName {c : Controller} {e : Option Entity} {verb stub name : Text} {lines : List Text}
    (hverb : verb ∈ ControllerFile.writtenVerbs s c)
    (hfound : lookup site s tree (ControllerFile.methodStub verb) = .ok (some stub))
    (hpackaged : (ControllerFile.methodStub verb, stub) ∈ Stub.packaged)
    (hname : name ∈ Stub.variableNames stub (ControllerFile.methodSlots c verb lines)) :
    Declares site s tree (controller c e) name
  | dataClass (e : Entity) : Declares site s tree (data e) (ClassNames.dataClass e.name)
  | property {e : Entity} {ps : List DataFile.Property} {p : DataFile.Property}
    (hps : DataFile.properties s e = .ok ps) (hp : p ∈ ps) : Declares site s tree (data e) p.name

/-- The file of a job shows what the job declares: as what its stub has for the class, or behind a
dollar sign in what the stub has for the properties or the methods. -/
def Shows (site : Site) (s : Settings) (tree : Tree) (job : Job) (a : Artifact) : Prop :=
  ∃ stub slots, lookup site s tree job.classStub = .ok (some stub) ∧
    a.content = Stub.render stub slots ∧
    ∀ name, Declares site s tree job name →
      slots.value? "class" = some name ∨
        ∃ value, (slots.value? "properties" = some value ∨ slots.value? "methods" = some value) ∧
          '$' :: name <:+: value

/-- What the names that a job is made from have to be like. The properties of a data object only
count when it has a file, and so when the classes of its enums can be written. -/
def WellNamed (site : Site) (s : Settings) (tree : Tree) : Job → Prop
  | controller c _ =>
    beginsWithDigit c.name = false ∧
      ((∃ verb ∈ ControllerFile.writtenVerbs s c, HasPackagedMethod site s tree verb) →
        c.modelName ≠ [])
  | data e =>
    beginsWithDigit e.name = false ∧
      ((∃ ps, DataFile.properties s e = .ok ps) →
        (∀ c ∈ e.columns, c.isBodyColumn = true → endsWith "\n" c.name = false) ∧
          ∀ r ∈ e.related, beginsWithDigit r.2 = false)

theorem controller_wellNamed_iff (c : Controller) (e : Option Entity) :
    (∀ name, Declares site s tree (controller c e) name → isIdentifier name = true) ↔
      WellNamed site s tree (controller c e) := by
  constructor
  · intro h
    refine ⟨c.isIdentifier_className.mp (h _ (.controllerClass c e)), ?_⟩
    rintro ⟨verb, hverb, stub, hfound, hpackaged⟩
    have hname : Words.camel c.modelName ∈
        Stub.variableNames stub (ControllerFile.methodSlots c verb []) :=
      (ControllerFile.mem_variableNames hpackaged).mpr rfl
    exact (c.isIdentifier_variable.mp (h _ (.variableName hverb hfound hpackaged hname))).1
  · rintro ⟨hdigit, hmodel⟩ name hname
    cases hname with
    | controllerClass => exact c.isIdentifier_className.mpr hdigit
    | variableName hverb hfound hpackaged hname =>
      rw [(ControllerFile.mem_variableNames hpackaged).mp hname]
      exact c.isIdentifier_variable.mpr ⟨hmodel ⟨_, hverb, _, hfound, hpackaged⟩, hdigit⟩

theorem data_wellNamed_iff {e : Entity}
    (hcolumns : ∀ c ∈ e.columns, asLine isIdentifier c.name = true) :
    (∀ name, Declares site s tree (data e) name → isIdentifier name = true) ↔
      WellNamed site s tree (data e) := by
  constructor
  · intro h
    refine ⟨(ClassNames.isIdentifier_dataClass e.name).mp (h _ (.dataClass e)), ?_⟩
    rintro ⟨ps, hps⟩
    obtain ⟨columns, hown, rfl⟩ := DataFile.properties_eq_ok_iff.mp hps
    constructor
    · refine (DataFile.isIdentifier_columnProperties hown hcolumns).mp fun p hp => ?_
      exact h _ (.property hps (List.mem_append_left _ hp))
    · refine (DataFile.isIdentifier_relatedProperties s hcolumns).mp fun p hp => ?_
      exact h _ (.property hps (List.mem_append_right _ hp))
  · rintro ⟨hdigit, hproperties⟩ name hname
    cases hname with
    | dataClass => exact (ClassNames.isIdentifier_dataClass e.name).mpr hdigit
    | property hps hp =>
      obtain ⟨hlines, hrelated⟩ := hproperties ⟨_, hps⟩
      obtain ⟨columns, hown, rfl⟩ := DataFile.properties_eq_ok_iff.mp hps
      rcases List.mem_append.mp hp with hp | hp
      · exact (DataFile.isIdentifier_columnProperties hown hcolumns).mpr hlines _ hp
      · exact (DataFile.isIdentifier_relatedProperties s hcolumns).mpr hrelated _ hp

theorem data_shows {e : Entity} {a : Artifact}
    (h : (data e).outcome (lookup site s tree) s site.now = .ok (.made a)) :
    Shows site s tree (data e) a := by
  obtain ⟨stub, ps, hstub, hps, rfl⟩ := outcome_data_made h
  refine ⟨stub, DataFile.classSlots s e ps, hstub, rfl, fun name hname => ?_⟩
  cases hname with
  | dataClass => exact Or.inl rfl
  | property hps' hp =>
    obtain rfl := Except.ok.inj (hps.symm.trans hps')
    have htext := (DataFile.property_text hps hp).isInfix
    exact Or.inr ⟨_, Or.inl rfl, htext.trans (DataFile.text_infix_propertyBlock hp)⟩

theorem controller_shows {c : Controller} {e : Option Entity} {a : Artifact}
    (h : (controller c e).outcome (lookup site s tree) s site.now = .ok (.made a)) :
    Shows site s tree (controller c e) a := by
  obtain ⟨stub, methods, hstub, hmethods, rfl⟩ := outcome_controller_made h
  refine ⟨stub, ControllerFile.classSlots s c e methods, hstub, rfl, fun name hname => ?_⟩
  cases hname with
  | controllerClass => exact Or.inl rfl
  | @variableName _ _ verb own name lines hverb hfound hpackaged hname =>
    obtain ⟨text, htext, hmem⟩ := mem_methodTexts hmethods hverb hfound
    obtain ⟨lines', -, rfl⟩ := Except.map_eq_ok_iff.mp htext
    -- The variable does not depend on the attributes of the method.
    have hshown : name ∈ Stub.variableNames own (ControllerFile.methodSlots c verb lines') := by
      rw [ControllerFile.mem_variableNames hpackaged] at hname ⊢
      exact hname
    obtain ⟨front, back, hrender⟩ := Stub.variableNames_in_text hshown
    have hvariable : '$' :: name <:+: Stub.render own (ControllerFile.methodSlots c verb lines') :=
      ⟨front, back, by simp [hrender]⟩
    have hblock := ControllerFile.text_infix_methodBlock (List.mem_map_of_mem (f := (·.2)) hmem)
    exact Or.inr ⟨_, Or.inr rfl, hvariable.trans hblock⟩

/-- All names in the files of a schema without an error are identifiers exactly when no controller,
entity or related name has a digit for its first letter or digit, no column of a request body ends
in a line feed, and a controller with a packaged method has a model. The files that are made show
all these names. -/
theorem names_identifiers_iff (hfull : Check.full tree site.cwd schema s = .ok found)
    (hvalid : found.isValid = true) :
    ((∀ job ∈ served site s tree (all schema s), ∀ name, Declares site s tree job name →
        isIdentifier name = true) ↔
      ∀ job ∈ served site s tree (all schema s), WellNamed site s tree job) ∧
      ∀ job ∈ served site s tree (all schema s), ∀ a,
        job.outcome (lookup site s tree) s site.now = .ok (.made a) → Shows site s tree job a := by
  constructor
  case right =>
    intro job _ a hmade
    cases job with
    | controller c e => exact controller_shows hmade
    | data e => exact data_shows hmade
  refine forall₂_congr fun job hjob => ?_
  cases job with
  | controller c e => exact controller_wellNamed_iff c e
  | data e =>
    have he : e ∈ schema.entities := by
      have hall := (mem_served.mp hjob).1
      rw [all_eq] at hall
      rcases List.mem_append.mp hall with hall | hall
      · obtain ⟨-, c, -, hc⟩ := mem_controllerJobs.mp hall
        cases hc
      · obtain ⟨-, e', he', heq⟩ := mem_dataJobs.mp hall
        cases heq
        exact he'
    exact data_wellNamed_iff fun c hc => Check.column_asLine hfull hvalid he hc

/-- Files with class stubs and one packaged method stub. -/
def storeStubTree : Tree :=
  ⟨plainTree.entries ++
    [([("stubs" : Text), ControllerFile.methodStub "store"], .file (utf8 Stub.storeMethod))]⟩

theorem storeStubTree_lookup :
    lookup plainSite {} storeStubTree (ControllerFile.methodStub "store") =
      .ok (some Stub.storeMethod) := by
  unfold storeStubTree Stub.storeMethod Stub.line Stub.slot
  repeat rw [String.toList_ofList]
  decide +kernel

/-- Names that pass the checks as they are and still lead to names that are no identifiers. -/
def misnamedEntity : Entity :=
  { name := "_1", columns := [{ name := "title\n" }], relationships := [(.hasMany, ["2fa"])] }

def misnamedController : Controller := { name := "S", methods := ["store"] }

def misnamed : Schema :=
  { entities := [misnamedEntity], controllers := [misnamedController] }

theorem misnamed_declares :
    (∃ found, Check.full storeStubTree plainSite.cwd misnamed {} = .ok found ∧
        found.isValid = true) ∧
      ∀ name ∈ (["1Data", "title\n", "2Fas", ""] : List Text), isIdentifier name = false ∧
        ∃ job ∈ served plainSite {} storeStubTree (all misnamed {}),
          Declares plainSite {} storeStubTree job name := by
  have hdata : data misnamedEntity ∈ served plainSite {} storeStubTree (all misnamed {}) :=
    mem_served.mpr ⟨List.mem_cons_of_mem _ List.mem_cons_self, by decide +kernel⟩
  have hcontroller : controller misnamedController none ∈
      served plainSite {} storeStubTree (all misnamed {}) :=
    mem_served.mpr ⟨List.mem_cons_self, by decide +kernel⟩
  obtain ⟨ps, hps, hnames⟩ : ∃ ps, DataFile.properties {} misnamedEntity = .ok ps ∧
      ps.map (·.name) = [("title\n" : Text), "2Fas"] := ⟨_, rfl, by decide +kernel⟩
  have hproperty : ∀ name ∈ [("title\n" : Text), "2Fas"],
      Declares plainSite {} storeStubTree (data misnamedEntity) name := by
    intro name hname
    rw [← hnames] at hname
    obtain ⟨p, hp, rfl⟩ := List.mem_map.mp hname
    exact .property hps hp
  refine ⟨⟨_, rfl, by decide +kernel⟩, ?_⟩
  refine List.forall_mem_cons.mpr ⟨⟨by decide, _, hdata, .dataClass misnamedEntity⟩, ?_⟩
  refine List.forall_mem_cons.mpr ⟨⟨by decide, _, hdata, hproperty _ List.mem_cons_self⟩, ?_⟩
  refine List.forall_mem_cons.mpr ⟨⟨by decide, _, hdata,
    hproperty _ (List.mem_cons_of_mem _ List.mem_cons_self)⟩, ?_⟩
  refine List.forall_mem_cons.mpr ⟨⟨by decide, _, hcontroller, ?_⟩, by simp⟩
  have hverb : ("store" : Text) ∈ ControllerFile.writtenVerbs {} misnamedController := by decide
  have hpackaged : (ControllerFile.methodStub "store", Stub.storeMethod) ∈ Stub.packaged :=
    List.mem_cons_of_mem _ List.mem_cons_self
  have hname : ("" : Text) ∈
      Stub.variableNames Stub.storeMethod
        (ControllerFile.methodSlots misnamedController "store" []) :=
    (ControllerFile.mem_variableNames hpackaged).mpr (by decide)
  exact .variableName hverb storeStubTree_lookup hpackaged hname

/-- A controller with a packaged method and a data object, all names of which are identifiers. -/
def storedPost : Schema :=
  { entities := [{ name := "Post", columns := [{ name := "title" }, { name := "_2nd" }] }],
    controllers := [{ name := "Admin/Posts", methods := ["store"] }] }

theorem storedPost_names :
    ∃ found, Check.full storeStubTree plainSite.cwd storedPost {} = .ok found ∧
      found.isValid = true ∧
        (∀ job ∈ served plainSite {} storeStubTree (all storedPost {}), ∀ name,
          Declares plainSite {} storeStubTree job name → isIdentifier name = true) ∧
        ∀ job ∈ served plainSite {} storeStubTree (all storedPost {}), ∀ a,
          job.outcome (lookup plainSite {} storeStubTree) {} plainSite.now = .ok (.made a) →
            Shows plainSite {} storeStubTree job a := by
  obtain ⟨found, hfull, hvalid⟩ : ∃ found, Check.full storeStubTree plainSite.cwd storedPost
      {} = .ok found ∧ found.isValid = true := ⟨_, rfl, by decide +kernel⟩
  obtain ⟨hnames, hshows⟩ := @names_identifiers_iff plainSite _ _ _ _ hfull hvalid
  refine ⟨found, hfull, hvalid, hnames.mpr fun job hjob => ?_, hshows⟩
  have hall : job ∈ all storedPost {} := (mem_served.mp hjob).1
  rcases List.mem_cons.mp hall with rfl | hall
  · exact ⟨by decide, fun _ => by decide⟩
  · rw [List.mem_singleton.mp hall]
    exact ⟨by decide, fun _ => ⟨by decide, by decide⟩⟩

end Job

end ApiScaffold
